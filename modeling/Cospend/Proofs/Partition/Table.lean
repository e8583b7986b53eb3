import Cospend.Partition.Basic
import Cospend.Proofs.Store.Batch
import Cospend.Proofs.Store.Variable
import Mathlib.Logic.Function.Basic

/-!
# The table of a partition

A store holds a partition as a table with one entry for each variable that has a value: the height if
there is one, the number of addresses unless it is zero, a parent and a rank for each number, and a
number for each address. `Partition.table` is that table, and no other table shows the same values.
-/

namespace Cospend

/-- A value, or nothing, for each variable. -/
abbrev Values := (v : Variable) → Option v.Value

/-- The table holds the octets of the values, and no other entry. -/
structure Table.Shows (t : Table) (x : Values) : Prop where
  at_key (v : Variable) : t[v.key]? = (x v).map v.encode
  elsewhere {k : Bytes} (h : ∀ v : Variable, v.key ≠ k) : t[k]? = none

namespace Table.Shows

variable {t t' : Table} {x : Values}

theorem unique (h : t.Shows x) (h' : t'.Shows x) : t = t' := by
  refine Std.ExtTreeMap.ext_getElem? fun k => ?_
  by_cases hk : ∃ v : Variable, v.key = k
  · obtain ⟨v, rfl⟩ := hk
    rw [h.at_key, h'.at_key]
  · have hne : ∀ v : Variable, v.key ≠ k := fun v hv => hk ⟨v, hv⟩
    rw [h.elsewhere hne, h'.elsewhere hne]

theorem put (h : t.Shows x) (v : Variable) (a : v.Value) :
    Shows (t.insert v.key (v.encode a)) (Function.update x v (some a)) where
  at_key w := by
    by_cases hw : w = v
    · subst hw
      rw [Function.update_self, Option.map_some]
      exact getElem?_insert_eq
    · rw [Function.update_of_ne hw, getElem?_insert_ne fun hk => hw (Variable.key_inj.mp hk).symm]
      exact h.at_key w
  elsewhere hk := by rw [getElem?_insert_ne (hk v), h.elsewhere hk]

theorem empty : Shows ∅ fun _ => none :=
  ⟨fun _ => Std.ExtTreeMap.getElem?_empty, fun _ => Std.ExtTreeMap.getElem?_empty⟩

end Table.Shows

namespace Partition

/-- The value that each variable has in a store that holds the partition. -/
def value? (p : Partition) : Values
  | .height => p.height
  | .size => if p.size = 0 then none else some (UInt64.ofNat p.size)
  | .parent id => (p.parent? id).map AddressId.ofNat
  | .rank id => p.rank? id
  | .addressId a => p.ids[a]?.map AddressId.ofNat

/-- The variables that can have a value in a store that holds the partition. -/
def assigned (p : Partition) : List Variable :=
  .height :: .size :: (List.range p.size).map .parent ++ (List.range p.forest.rank.size).map .rank ++
    p.ids.keys.map .addressId

/-- The entries of the table of a partition. -/
def entries (p : Partition) : List (Bytes × Bytes) :=
  p.assigned.filterMap fun v => (p.value? v).map fun a => (v.key, v.encode a)

/-- The table with which a store holds the partition, and nothing else. -/
def table (p : Partition) : Table := putAll ∅ p.entries

variable {p q : Partition}

theorem mem_assigned {v : Variable} {a : v.Value} (h : p.value? v = some a) : v ∈ p.assigned := by
  cases v with
  | height => simp [assigned]
  | size => simp [assigned]
  | parent id =>
      obtain ⟨i, hi, -⟩ := Option.map_eq_some_iff.mp h
      have hlt := (Array.getElem?_eq_some_iff.mp hi).1
      simp [assigned, size, Forest.size, hlt]
  | rank id =>
      have hlt := (Array.getElem?_eq_some_iff.mp h).1
      simp [assigned, hlt]
  | addressId b =>
      obtain ⟨i, hi, -⟩ := Option.map_eq_some_iff.mp h
      have hmem : b ∈ p.ids := Std.ExtTreeMap.mem_iff_isSome_getElem?.mpr (by rw [hi]; rfl)
      simp [assigned, hmem]

theorem mem_entries {k bs : Bytes} :
    (k, bs) ∈ p.entries ↔ ∃ v a, p.value? v = some a ∧ v.key = k ∧ v.encode a = bs := by
  simp only [entries, List.mem_filterMap, Option.map_eq_some_iff, Prod.mk.injEq]
  constructor
  · rintro ⟨v, _, a, ha, hk, hbs⟩
    exact ⟨v, a, ha, hk, hbs⟩
  · rintro ⟨v, a, ha, hk, hbs⟩
    exact ⟨v, mem_assigned ha, a, ha, hk, hbs⟩

theorem shows_table (p : Partition) : p.table.Shows p.value? where
  at_key v := by
    cases hv : p.value? v with
    | none =>
        refine (getElem?_putAll_of_not_mem fun bs hmem => ?_).trans
          Std.ExtTreeMap.getElem?_empty
        obtain ⟨w, a, ha, hk, -⟩ := mem_entries.mp hmem
        rw [← Variable.key_inj.mp hk, ha] at hv
        cases hv
    | some a =>
        refine getElem?_putAll_of_mem (mem_entries.mpr ⟨v, a, hv, rfl, rfl⟩) fun bs hmem => ?_
        obtain ⟨w, b, hb, hk, rfl⟩ := mem_entries.mp hmem
        obtain rfl := Variable.key_inj.mp hk
        rw [hv] at hb
        rw [Option.some.inj hb]
  elsewhere hk := by
    refine (getElem?_putAll_of_not_mem fun bs hmem => ?_).trans Std.ExtTreeMap.getElem?_empty
    obtain ⟨v, _, _, hv, -⟩ := mem_entries.mp hmem
    exact hk v hv

theorem eq_table {t : Table} (h : t.Shows p.value?) : t = p.table := h.unique p.shows_table

theorem getElem?_table (p : Partition) (v : Variable) :
    p.table[v.key]? = (p.value? v).map v.encode :=
  p.shows_table.at_key v

theorem value?_eq_of_table {v : Variable} {x : Option v.Value}
    (h : p.table[v.key]? = x.map v.encode) : p.value? v = x := by
  rw [getElem?_table] at h
  exact Option.map_injective (fun _ _ => Variable.encode_inj) h

theorem table_insert {v : Variable} {a : v.Value}
    (h : q.value? = Function.update p.value? v (some a)) :
    p.table.insert v.key (v.encode a) = q.table :=
  eq_table (h ▸ p.shows_table.put v a)

theorem table_empty : empty.table = ∅ := by
  refine (eq_table ?_).symm
  have h : empty.value? = fun _ => none := by
    funext v
    cases v with
    | addressId a => simp [value?, empty]
    | _ => rfl
  rw [h]
  exact Table.Shows.empty

end Partition

end Cospend
