import Cospend.Partition.Workspace
import Cospend.Proofs.Partition.Sound
import Cospend.Proofs.Partition.Table

/-!
# Tables overlaid with pending writes

A pending batch leads from a table to a partition if the table, after the changes of the batch, shows
that partition and nothing else. Each operation stages the changes that take this from the partition
before it to the partition after it. The partition in the table need not be the one in memory: the
same changes are staged for it, and they make the same difference to it.
-/

namespace Cospend

variable {β : Type} [WriteBatch β]

namespace Partition

variable {p q : Partition}

/-- The partition with the height of a checkpoint, if there is one. -/
def checkpointed (p : Partition) (c : Option Height) : Partition := { p with height := c.or p.height }

theorem Numbered.checkpointed (hp : p.Numbered) (c : Option Height) : (p.checkpointed c).Numbered :=
  ⟨⟨hp.forest, hp.ids_lt⟩, hp.size_lt, hp.ids_inj, hp.ids_size⟩

theorem Alike.checkpointed (h : Alike p q) (c : Option Height) :
    Alike (p.checkpointed c) (q.checkpointed c) :=
  ⟨by rw [Partition.checkpointed, Partition.checkpointed, h.height_eq], h.ids_eq, h.forest⟩

/-! ## One variable changed -/

theorem value?_height (h : Height) :
    (p.checkpointed (some h)).value? = Function.update p.value? .height (some h) := by
  funext v
  cases v with
  | height => rw [Function.update_self]; rfl
  | _ => rw [Function.update_of_ne (by simp)]; rfl

theorem value?_parent {i : Nat} (hi : i < p.size) (r : Nat) :
    ({ p with forest := p.forest.reparent [i] r } : Partition).value? =
      Function.update p.value? (.parent i) (some (AddressId.ofNat r)) := by
  have hi' : i < p.forest.parent.size := hi
  have hsize : ({ p with forest := p.forest.reparent [i] r } : Partition).size = p.size :=
    Forest.size_reparent [i] r
  funext v
  by_cases hv : v = .parent i
  · subst hv
    rw [Function.update_self]
    simp [value?, parent?, Forest.reparent, hi']
  · rw [Function.update_of_ne hv]
    cases v with
    | parent j =>
        have hj : i ≠ j := fun h => hv (h ▸ rfl)
        simp [value?, parent?, Forest.reparent, hj]
    | size => simp only [value?, hsize]
    | _ => rfl

theorem value?_rank {i : Nat} (hi : i < p.forest.rank.size) (n : UInt64) :
    ({ p with forest := { p.forest with rank := p.forest.rank.setIfInBounds i n } } : Partition).value? =
      Function.update p.value? (.rank i) (some n) := by
  funext v
  by_cases hv : v = .rank i
  · subst hv
    rw [Function.update_self]
    simp [value?, rank?, hi]
  · rw [Function.update_of_ne hv]
    cases v with
    | rank j =>
        have hj : i ≠ j := fun h => hv (h ▸ rfl)
        simp [value?, rank?, hj]
    | _ => rfl

/-- Four variables change for a new address, all of them without a value before or the size. -/
theorem value?_add (hp : p.forest.rank.size = p.size) (a : Address) :
    (p.add a).value? =
      Function.update (Function.update (Function.update (Function.update p.value?
        .size (some (UInt64.ofNat (p.size + 1))))
        (.addressId a) (some (AddressId.ofNat p.size)))
        (.parent p.size) (some (AddressId.ofNat p.size)))
        (.rank p.size) (some 0) := by
  have hp' : p.forest.parent.size = p.size := rfl
  funext v
  cases v with
  | height => rfl
  | size => simp [value?, Function.update_of_ne]
  | parent i =>
      by_cases hi : i = p.size
      · subst hi
        simp [value?, parent?, add, Forest.push, ← hp', Function.update_of_ne]
      · have hne : i ≠ p.forest.parent.size := hi
        simp [value?, parent?, add, Forest.push, Array.getElem?_push, hne, hi, Function.update_of_ne]
  | rank i =>
      by_cases hi : i = p.size
      · subst hi
        simp [value?, rank?, add, Forest.push, ← hp]
      · have hne : i ≠ p.forest.rank.size := hp ▸ hi
        simp [value?, rank?, add, Forest.push, Array.getElem?_push, hne, hi, Function.update_of_ne]
  | addressId b =>
      by_cases hb : b = a
      · subst hb
        simp [value?, ids_add, Function.update_of_ne]
      · simp [value?, ids_add, hb, Ne.symm hb, Function.update_of_ne]

end Partition

namespace Pending

variable {b : Pending β} {t : Table} {p q : Partition}

/-- The table shows the partition once the changes of the batch are made. -/
def LeadsTo (b : Pending β) (t : Table) (p : Partition) : Prop :=
  WriteBatch.applyTo b.writes t = (p.checkpointed b.checkpoint).table

theorem checkpoint_stage {v : Variable} (hv : v ≠ .height) (a : v.Value) :
    (b.stage v a).checkpoint = b.checkpoint := by
  cases v with
  | height => exact absurd rfl hv
  | _ => rfl

variable [LawfulBatch β]

theorem applyTo_stage (v : Variable) (a : v.Value) :
    WriteBatch.applyTo (b.stage v a).writes t =
      (WriteBatch.applyTo b.writes t).insert v.key (v.encode a) := by
  simp [stage]

theorem leadsTo_empty (p : Partition) : (empty : Pending β).LeadsTo p.table p :=
  LawfulBatch.applyTo_empty p.table

theorem LeadsTo.stage (h : b.LeadsTo t p) {v : Variable} {a : v.Value} (hv : v ≠ .height)
    (hq : (q.checkpointed b.checkpoint).value? =
      Function.update (p.checkpointed b.checkpoint).value? v (some a)) :
    (b.stage v a).LeadsTo t q := by
  rw [LeadsTo, applyTo_stage, checkpoint_stage hv, show WriteBatch.applyTo b.writes t = _ from h]
  exact Partition.table_insert hq

theorem LeadsTo.stage_height (h : b.LeadsTo t p) (height : Height) :
    (b.stage .height height).LeadsTo t p := by
  rw [LeadsTo, applyTo_stage, show WriteBatch.applyTo b.writes t = _ from h]
  exact Partition.table_insert ((p.checkpointed b.checkpoint).value?_height height)

theorem LeadsTo.stage_parent (h : b.LeadsTo t p) {i : Nat} (hi : i < p.size) (r : Nat) :
    (b.stage (.parent i) (AddressId.ofNat r)).LeadsTo t
      { p with forest := p.forest.reparent [i] r } :=
  h.stage (by simp) (Partition.value?_parent (p := p.checkpointed b.checkpoint) hi r)

theorem LeadsTo.stage_rank (h : b.LeadsTo t p) {i : Nat} (hi : i < p.forest.rank.size) (n : UInt64) :
    (b.stage (.rank i) n).LeadsTo t
      { p with forest := { p.forest with rank := p.forest.rank.setIfInBounds i n } } :=
  h.stage (by simp) (Partition.value?_rank (p := p.checkpointed b.checkpoint) hi n)

end Pending

/-! ## The changes that operations stage -/

namespace Workspace

theorem checkpoint_add (w : Workspace β) (a : Address) :
    (w.add a).pending.checkpoint = w.pending.checkpoint := rfl

theorem checkpoint_shorten (w : Workspace β) (c : Forest.Compression) :
    (w.shorten c).pending.checkpoint = w.pending.checkpoint := by
  simp only [shorten]
  induction c.moved generalizing w with
  | nil => rfl
  | cons i nodes ih => exact ih { w with pending := w.pending.stage (.parent i) _ }

theorem checkpoint_join (w : Workspace β) (l : Forest.Link) :
    (w.join l).pending.checkpoint = w.pending.checkpoint := by
  obtain ⟨parent, child, rank⟩ := l
  cases rank <;> rfl

variable [LawfulBatch β] {w : Workspace β} {t : Table} {p : Partition}

theorem add_leadsTo (h : w.pending.LeadsTo t p) (hp : p.Sound) (hsize : w.partition.size = p.size)
    (a : Address) : (w.add a).pending.LeadsTo t (p.add a) := by
  have hshows := (p.checkpointed w.pending.checkpoint).shows_table
  rw [← show WriteBatch.applyTo w.pending.writes t = _ from h] at hshows
  have hfour := (((hshows.put .size (UInt64.ofNat (p.size + 1))).put
    (.addressId a) (AddressId.ofNat p.size)).put
    (.parent p.size) (AddressId.ofNat p.size)).put (.rank p.size) 0
  have hvalue := Partition.value?_add (p := p.checkpointed w.pending.checkpoint)
    hp.forest.rank_size a
  refine Partition.eq_table ?_
  simp only [add]
  rw [hsize]
  simp only [Pending.applyTo_stage]
  exact (congrArg (Table.Shows _) hvalue).mpr hfour

theorem stage_parents_leadsTo {b : Pending β} (h : b.LeadsTo t p) {nodes : List Nat} {r : Nat}
    (hn : ∀ i ∈ nodes, i < p.size) :
    Pending.LeadsTo (nodes.foldl (fun b i => b.stage (.parent i) (AddressId.ofNat r)) b) t
      { p with forest := p.forest.reparent nodes r } := by
  induction nodes generalizing b p with
  | nil => exact h
  | cons i nodes ih =>
      refine ih (h.stage_parent (hn i List.mem_cons_self) r) fun j hj => ?_
      have hj := hn j (List.mem_cons_of_mem _ hj)
      simpa [Partition.size] using hj

theorem shorten_leadsTo (h : w.pending.LeadsTo t p) {c : Forest.Compression}
    (hc : ∀ i ∈ c.moved, i < p.size) :
    (w.shorten c).pending.LeadsTo t { p with forest := p.forest.reparent c.moved c.root } :=
  stage_parents_leadsTo h hc

theorem join_leadsTo (h : w.pending.LeadsTo t p) (hp : p.Sound) {l : Forest.Link}
    (hl : l.Fits p.forest) :
    (w.join l).pending.LeadsTo t { p with forest := p.forest.link l } := by
  obtain ⟨parent, child, rank⟩ := l
  cases rank with
  | none => exact h.stage_parent hl.child_lt parent
  | some n =>
      have hrank := h.stage_rank (i := parent) (hp.forest.rank_size ▸ hl.parent_lt) n
      exact hrank.stage_parent hl.child_lt parent

end Workspace

end Cospend
