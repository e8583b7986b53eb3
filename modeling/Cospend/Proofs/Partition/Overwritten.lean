import Cospend.Proofs.Partition.Decoded
import Cospend.Proofs.Partition.Edits
import Cospend.Proofs.Partition.Staging

/-!
# Changes written over any table

A table that a partition is loaded from may hold more than the partition needs, and need not be one that was
written with it. Whatever it is, the changes that are staged for a new address, a shorter way or two joined
trees, written over the table, make it one that the changed partition is loaded from.
-/

namespace Cospend

namespace Table

variable {t : Table} {p q : Partition} {v w : Variable} {bs : Bytes} {n : Nat}

/-- The partition is loaded from the table. -/
structure Stores (t : Table) (p : Partition) : Prop where
  readable : t.Readable
  decoded : t.Decoded p
  counted : p.Counted

theorem Stores.answers (s : Store) : (s.withFaults .none).Answers where
  height := rfl
  size := rfl
  parent _ _ := rfl
  rank _ _ := rfl
  addresses := rfl

theorem Stores.load_eq {s : Store} (h : s.table.Stores p) :
    Partition.load (s.withFaults .none) = .ok p := by
  rw [Partition.load_eq_ok, Partition.loadedFrom_iff]
  exact ⟨answers s, h.readable, h.decoded, h.counted⟩

theorem Stores.of_load {s : Store} (h : Partition.load s = .ok p) : s.table.Stores p := by
  obtain ⟨-, hreadable, hdecoded, hcounted⟩ := Partition.loadedFrom_iff.mp (Partition.load_eq_ok.mp h)
  exact ⟨hreadable, hdecoded, hcounted⟩

/-- Whichever reads fail, nothing else is loaded. -/
theorem Stores.unique {s : Store} (h : s.table.Stores p) (hq : Partition.load s = .ok q) : q = p := by
  have hload := Partition.load_eq_ok.mpr (Partition.load_eq_ok.mp hq).faultless
  exact Except.ok.inj (hload.symm.trans h.load_eq)

/-! ## One entry -/

/-- The table with a value written to a variable. -/
def put (t : Table) (v : Variable) (x : v.Value) : Table := t.insert v.key (v.encode x)

theorem getElem?_put (t : Table) (v : Variable) (x : v.Value) (k : Bytes) :
    (t.put v x)[k]? = if v.key = k then some (v.encode x) else t[k]? := by
  simp [put, Std.ExtTreeMap.getElem?_insert]

@[simp] theorem number?_put (t : Table) (v : Variable) (x : v.Value) (w : Variable) :
    (t.put v x).number? w = if v = w then (v.encode x).number? else t.number? w := by
  simp only [number?, getElem?_put, Variable.key_inj]
  split <;> rfl

@[simp] theorem count_put (t : Table) (v : Variable) (x : v.Value) :
    (t.put v x).count = if v = .size then (v.encode x).number?.getD 0 else t.count := by
  simp only [count, number?_put]
  split <;> rfl

@[simp] theorem height?_put (t : Table) (v : Variable) (x : v.Value) :
    (t.put v x).height? = if v = .height then (v.encode x).height? else t.height? := by
  simp only [height?, getElem?_put, Variable.key_inj]
  split <;> rfl

theorem number?_put_ne {x : v.Value} (h : v ≠ w) : (t.put v x).number? w = t.number? w := by
  rw [number?_put, if_neg h]

theorem count_put_ne {x : v.Value} (h : v ≠ .size) : (t.put v x).count = t.count := by
  rw [count_put, if_neg h]

theorem height?_put_ne {x : v.Value} (h : v ≠ .height) : (t.put v x).height? = t.height? := by
  rw [height?_put, if_neg h]

/-- What is written can be read. -/
theorem Readable.put (h : t.Readable) (v : Variable) (x : v.Value) : (t.put v x).Readable where
  height bs hbs := by
    rw [getElem?_put] at hbs
    split at hbs
    · rename_i hv
      obtain rfl := Variable.key_inj.mp hv
      cases hbs
      exact ⟨x, Variable.height?_encode x⟩
    · exact h.height bs hbs
  size bs hbs := by
    rw [getElem?_put] at hbs
    split at hbs
    · rename_i hv
      obtain rfl := Variable.key_inj.mp hv
      cases hbs
      exact ⟨_, Variable.number?_encode_size x⟩
    · exact h.size bs hbs
  address k bs hbs hlead := by
    rw [getElem?_put] at hbs
    split at hbs
    · rename_i hv
      subst hv
      obtain ⟨a, rfl⟩ := Variable.addressLead_isPrefixOf_key hlead
      cases hbs
      exact ⟨a, rfl, _, Variable.number?_encode_addressId x⟩
    · exact h.address k bs hbs hlead

/-! ## One variable of a partition -/

theorem Decoded.put_height (h : t.Decoded p) (height : Height) :
    (t.put .height height).Decoded (p.checkpointed (some height)) where
  height := by
    rw [height?_put, if_pos rfl]
    exact Variable.height?_encode height
  size := (count_put_ne (by simp)).trans h.size
  parent i hi := (number?_put_ne (by simp)).trans (h.parent i (by simpa using hi))
  rank i hi := (number?_put_ne (by simp)).trans (h.rank i (by simpa using hi))
  rank_size := h.rank_size.trans (count_put_ne (by simp)).symm
  ids a := (number?_put_ne (by simp)).trans (h.ids a)

theorem Decoded.put_parent (h : t.Decoded p) {i r : Nat} (hi : i < p.size) (hr : r < UInt64.size) :
    (t.put (.parent i) (.ofNat r)).Decoded { p with forest := p.forest.reparent [i] r } where
  height := (height?_put_ne (by simp)).trans h.height
  size := (count_put_ne (by simp)).trans (h.size.trans (Forest.size_reparent [i] r).symm)
  parent j hj := by
    have hi' : i < p.forest.parent.size := hi
    by_cases hij : i = j
    · subst hij
      simp [Partition.toNat_ofNat hr, Partition.parent?, Forest.reparent, hi']
    · have hj : t.number? (.parent j) = p.parent? j := h.parent j (by simpa using hj)
      simpa [Partition.parent?, Forest.reparent, hij] using hj
  rank j hj := (number?_put_ne (by simp)).trans (h.rank j (by simpa using hj))
  rank_size := h.rank_size.trans (count_put_ne (by simp)).symm
  ids a := (number?_put_ne (by simp)).trans (h.ids a)

theorem Decoded.put_rank (h : t.Decoded p) {i : Nat} (hi : i < p.size) (n : UInt64) :
    (t.put (.rank i) n).Decoded
      { p with forest := { p.forest with rank := p.forest.rank.setIfInBounds i n } } where
  height := (height?_put_ne (by simp)).trans h.height
  size := (count_put_ne (by simp)).trans h.size
  parent j hj := (number?_put_ne (by simp)).trans (h.parent j (by simpa using hj))
  rank j hj := by
    have hi' : i < p.forest.rank.size := by rwa [h.rank_size, h.size]
    by_cases hij : i = j
    · subst hij
      simp [Partition.rank?, hi']
    · have hj : t.number? (.rank j) = (p.rank? j).map UInt64.toNat := h.rank j (by simpa using hj)
      simpa [Partition.rank?, hij] using hj
  rank_size := by simpa using h.rank_size
  ids a := (number?_put_ne (by simp)).trans (h.ids a)

/-- The table with the four values written that a new address comes with. -/
def putAddress (t : Table) (size : Nat) (a : Address) : Table :=
  (((t.put .size (.ofNat (size + 1))).put (.addressId a) (.ofNat size)).put
    (.parent size) (.ofNat size)).put (.rank size) 0

/-- What the table held for the variables of a new address does not matter. -/
theorem Decoded.add (h : t.Decoded p) (hsize : p.size + 1 < UInt64.size) (a : Address) :
    (t.putAddress p.size a).Decoded (p.add a) := by
  have hcount : (t.putAddress p.size a).count = p.size + 1 := by
    have hnumber : (UInt64.ofNat (p.size + 1)).toNat = p.size + 1 := UInt64.toNat_ofNat_of_lt' hsize
    simp only [putAddress, count_put, reduceCtorEq, if_false, if_true, Variable.number?_encode_size, hnumber,
      Option.getD_some]
  have hid : (AddressId.ofNat p.size).toNat = p.size := Partition.toNat_ofNat (Nat.lt_of_succ_lt hsize)
  have hparent : p.forest.parent.size = p.size := rfl
  have hrank : p.forest.rank.size = p.size := h.rank_size.trans h.size
  have hold : ∀ {i}, i < p.size + 1 → p.size ≠ i → i < t.count := by
    intro i hi hne
    rw [h.size]
    omega
  refine ⟨?_, hcount.trans (p.size_add a).symm, fun i hi => ?_, fun i hi => ?_, ?_, fun b => ?_⟩
  · rw [putAddress, show (p.add a).height = p.height from rfl]
    simpa using h.height
  · rw [hcount] at hi
    by_cases hip : p.size = i
    · subst hip
      rw [Partition.parent?, show (p.add a).forest.parent[p.size]? = some p.size from Partition.parent_push_size]
      simp [putAddress, hid]
    · have hi := h.parent i (hold hi hip)
      simpa [putAddress, Partition.parent?, Partition.add, Forest.push, Array.getElem?_push, hparent, hip,
        Ne.symm hip] using hi
  · rw [hcount] at hi
    by_cases hip : p.size = i
    · subst hip
      rw [Partition.rank?, show (p.add a).forest.rank[p.size]? = some 0 from Partition.rank_push_size hrank]
      simp [putAddress]
    · have hi := h.rank i (hold hi hip)
      simpa [putAddress, Partition.rank?, Partition.add, Forest.push, Array.getElem?_push, hrank, hip,
        Ne.symm hip] using hi
  · rw [hcount]
    simp [Partition.add, Forest.push, hrank]
  · rw [Partition.ids_add]
    by_cases hab : a = b
    · subst hab
      simp [putAddress, hid]
    · simpa [putAddress, hab] using h.ids b

theorem Readable.putAddress (h : t.Readable) (size : Nat) (a : Address) : (t.putAddress size a).Readable :=
  (((h.put _ _).put _ _).put _ _).put _ _

theorem Stores.put_height (hs : t.Stores p) (height : Height) :
    (t.put .height height).Stores (p.checkpointed (some height)) where
  readable := hs.readable.put _ _
  decoded := hs.decoded.put_height height
  counted := ⟨⟨hs.counted.forest, hs.counted.ids_lt⟩, hs.counted.size_lt, hs.counted.ids_size⟩

end Table

namespace Partition

variable {p q : Partition} {a : Address}

theorem Alike.counted (h : Alike p q) (hq : q.Counted) : p.Counted where
  toSound := h.sound hq.toSound
  size_lt := h.size_eq ▸ hq.size_lt
  ids_size := by rw [h.ids_eq, h.size_eq, hq.ids_size]

theorem Counted.add (hp : p.Counted) (ha : p.ids[a]? = none) (hroom : p.size + 1 < capacityLimit) :
    (p.add a).Counted where
  toSound := hp.toSound.add a
  size_lt := by rwa [size_add]
  ids_size := by rw [ids_size_add ha, size_add, hp.ids_size]

theorem Counted.link (hp : p.Counted) {l : Forest.Link} (hl : l.Fits p.forest) :
    ({ p with forest := p.forest.link l } : Partition).Counted where
  toSound := hp.toSound.link hl
  size_lt := by simpa [size] using hp.size_lt
  ids_size := by simpa [size] using hp.ids_size

end Partition

/-! ## What operations stage -/

namespace Workspace

open Cospend.Partition (Alike)

variable {β : Type} [WriteBatch β] [LawfulBatch β] {w w' : Workspace β} {t : Table} {p q : Partition}

/-- The partition is loaded from the table once the pending changes are made. -/
def Overwrites (w : Workspace β) (t : Table) (p : Partition) : Prop :=
  (WriteBatch.applyTo w.pending.writes t).Stores p

theorem add_overwrites (h : w.Overwrites t p) (hp : Alike p w.partition) {a : Address}
    (ha : w.partition.ids[a]? = none) (hroom : w.partition.size + 1 < Partition.capacityLimit) :
    (w.add a).Overwrites t (p.add a) := by
  have htable : WriteBatch.applyTo (w.add a).pending.writes t =
      (WriteBatch.applyTo w.pending.writes t).putAddress p.size a := by
    simp only [add, Pending.applyTo_stage, hp.size_eq]
    rfl
  have hroom' : p.size + 1 < Partition.capacityLimit := hp.size_eq ▸ hroom
  rw [Overwrites, htable]
  exact ⟨h.readable.putAddress _ _, h.decoded.add (Nat.lt_trans hroom' (by decide)) a,
    h.counted.add (hp.ids_eq ▸ ha) hroom'⟩

theorem stage_parents {b : Pending β} {nodes : List Nat} {r : Nat}
    (hr : (WriteBatch.applyTo b.writes t).Readable) (hd : (WriteBatch.applyTo b.writes t).Decoded p)
    (hn : ∀ i ∈ nodes, i < p.size ∧ r < UInt64.size) :
    let b' := nodes.foldl (fun b i => b.stage (.parent i) (AddressId.ofNat r)) b
    (WriteBatch.applyTo b'.writes t).Readable ∧
      (WriteBatch.applyTo b'.writes t).Decoded { p with forest := p.forest.reparent nodes r } := by
  induction nodes generalizing b p with
  | nil => exact ⟨hr, hd⟩
  | cons i nodes ih =>
      obtain ⟨hi, hlt⟩ := hn i List.mem_cons_self
      have htable : WriteBatch.applyTo (b.stage (.parent i) (AddressId.ofNat r)).writes t =
          (WriteBatch.applyTo b.writes t).put (.parent i) (AddressId.ofNat r) := Pending.applyTo_stage _ _
      refine ih (htable ▸ hr.put _ _) (htable ▸ hd.put_parent hi hlt) fun j hj => ?_
      simpa [Partition.size] using hn j (List.mem_cons_of_mem _ hj)

theorem shorten_overwrites (h : w.Overwrites t p) (hp : Alike p w.partition) (i : Nat) :
    let c := w.partition.forest.compress i
    (w.shorten c).Overwrites t { p with forest := p.forest.reparent c.moved c.root } := by
  intro c
  have hmoved : ∀ j ∈ c.moved, p.forest.root j = c.root ∧ j ≠ c.root := fun j => hp.forest.compress_moved
  have hn : ∀ j ∈ c.moved, j < p.size ∧ c.root < UInt64.size := by
    intro j hj
    obtain ⟨hroot, hne⟩ := hmoved j hj
    have hlt : j < p.forest.size := Forest.lt_size_of_root_ne (hroot ▸ hne.symm)
    have hroot_lt : c.root < p.size := hroot ▸ h.counted.forest.root_lt hlt
    exact ⟨hlt, Nat.lt_trans hroot_lt (Nat.lt_trans h.counted.size_lt (by decide))⟩
  obtain ⟨hreadable, hdecoded⟩ := stage_parents h.readable h.decoded hn
  have halike := Partition.alike_of_forest (h.counted.forest.reparent hmoved)
  exact ⟨hreadable, hdecoded, halike.counted h.counted⟩

theorem join_overwrites (h : w.Overwrites t p) {l : Forest.Link} (hl : l.Fits p.forest) :
    (w.join l).Overwrites t { p with forest := p.forest.link l } := by
  have hlt : l.parent < UInt64.size :=
    Nat.lt_trans hl.parent_lt (Nat.lt_trans h.counted.size_lt (by decide))
  have hcounted := h.counted.link hl
  obtain ⟨parent, child, rank⟩ := l
  cases rank with
  | none =>
      have htable : WriteBatch.applyTo (w.join ⟨parent, child, none⟩).pending.writes t =
          (WriteBatch.applyTo w.pending.writes t).put (.parent child) (.ofNat parent) :=
        Pending.applyTo_stage _ _
      rw [Overwrites, htable]
      exact ⟨h.readable.put _ _, h.decoded.put_parent hl.child_lt hlt, hcounted⟩
  | some n =>
      have htable : WriteBatch.applyTo (w.join ⟨parent, child, some n⟩).pending.writes t =
          ((WriteBatch.applyTo w.pending.writes t).put (.rank parent) n).put (.parent child) (.ofNat parent) := by
        simp only [join, Pending.applyTo_stage]
        rfl
      rw [Overwrites, htable]
      exact ⟨(h.readable.put _ _).put _ _, (h.decoded.put_rank hl.parent_lt n).put_parent hl.child_lt hlt,
        hcounted⟩

/-- Whatever is staged by elementary changes, the pending changes go on to make the table one that the
partition in memory is loaded from, but for the ways to the roots. -/
theorem Edits.overwrites (h : Edits w w') (hp : Alike p w.partition) (hw : w.Overwrites t p) :
    ∃ q, Alike q w'.partition ∧ w'.Overwrites t q := by
  induction h with
  | refl => exact ⟨p, hp, hw⟩
  | add _ ha hroom ih =>
      obtain ⟨q, hq, hs⟩ := ih
      exact ⟨_, hq.add _, add_overwrites hs hq ha hroom⟩
  | shorten _ i ih =>
      obtain ⟨q, hq, hs⟩ := ih
      exact ⟨_, alike_shorten (hq.symm.sound hs.counted.toSound) hq i, shorten_overwrites hs hq i⟩
  | join _ hl _ ih =>
      obtain ⟨q, hq, hs⟩ := ih
      have hl' := hl.of_alike hq.symm.forest
      exact ⟨_, hq.link hl', join_overwrites hs hl'⟩

end Workspace

end Cospend
