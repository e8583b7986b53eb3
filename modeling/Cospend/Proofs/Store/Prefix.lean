import Cospend.Proofs.Store.Reading

/-!
# The entries under an octet string

In the order of the keys a table falls into three parts: the keys below an octet string, the keys
that begin with it, and the others above it. A scan of a store that does not fail gives the middle
part, and the values and the keys are those of the same entries.
-/

namespace Cospend

/-- The order of a table is the lexicographic order of the octets of its keys. -/
theorem Bytes.compare_eq_lt_iff {k k' : Bytes} : compare k k' = .lt ↔ k < k' := by
  induction k generalizing k' with
  | nil => cases k' <;> simp [compare, List.compareLex]
  | cons a k ih =>
      cases k' with
      | nil => simp [compare, List.compareLex]
      | cons b k' =>
          rw [List.compare_cons_cons, List.cons_lt_cons_iff, Ordering.then_eq_lt, ih,
            Std.LawfulLTCmp.eq_lt_iff_lt, Std.LawfulEqCmp.compare_eq_iff_eq]

namespace Table

/-- The entries of the keys below `lead`. -/
def below (t : Table) (lead : Bytes) : List (Bytes × Bytes) :=
  t.toList.takeWhile fun e => (compare e.1 lead).isLT

/-- The entries that a scan leaves unread. -/
def above (t : Table) (lead : Bytes) : List (Bytes × Bytes) :=
  (t.toList.dropWhile fun e => (compare e.1 lead).isLT).dropWhile fun e => lead.isPrefixOf e.1

variable {t : Table} {lead : Bytes} {e : Bytes × Bytes}

theorem toList_eq_parts (t : Table) (lead : Bytes) :
    t.toList = t.below lead ++ t.scan lead ++ t.above lead := by
  rw [List.append_assoc, scan, above, List.takeWhile_append_dropWhile, below,
    List.takeWhile_append_dropWhile]

theorem pairwise_toList (t : Table) : t.toList.Pairwise fun e e' => e.1 < e'.1 :=
  t.sorted_toList.imp Bytes.compare_eq_lt_iff.mp

theorem pairwise_scan (t : Table) (lead : Bytes) :
    (t.scan lead).Pairwise fun e e' => e.1 < e'.1 := by
  rw [scan_eq_filter]
  exact t.pairwise_toList.filter _

theorem lt_of_mem_below (h : e ∈ t.below lead) : e.1 < lead :=
  Bytes.compare_eq_lt_iff.mp
    (Ordering.isLT_iff_eq_lt.mp (List.all_eq_true.mp List.all_takeWhile e h))

/-- Every key that begins with `lead` is among those scanned, and no key is listed twice. -/
theorem not_prefix_of_mem_above (h : e ∈ t.above lead) : ¬ lead <+: e.1 := by
  intro hlead
  have hp := t.pairwise_toList
  rw [t.toList_eq_parts lead, List.append_assoc, List.pairwise_append,
    List.pairwise_append] at hp
  have hmem : e ∈ t.toList := by
    rw [t.toList_eq_parts lead]
    exact List.mem_append_right _ h
  have hscan : e ∈ t.scan lead := by
    rw [scan_eq_filter, List.mem_filter]
    exact ⟨hmem, List.isPrefixOf_iff_prefix.mpr hlead⟩
  exact List.lt_irrefl e.1 (hp.2.1.2.2 e hscan e h)

theorem lt_of_mem_above (h : e ∈ t.above lead) : lead < e.1 := by
  have hlow : ¬ e.1 < lead := fun hlt =>
    compare_ne_lt_of_mem_dropWhile t.sorted_toList ((List.dropWhile_sublist _).subset h)
      (Bytes.compare_eq_lt_iff.mpr hlt)
  have hne : lead ≠ e.1 := fun heq => not_prefix_of_mem_above h (heq ▸ List.prefix_rfl)
  exact Std.lt_of_le_of_ne (List.not_lt.mp hlow) hne

end Table

/-- A scan gives the entries that the table holds for the keys beginning with `lead`, each of them
once and in the order of the keys, and leaves out those below and above. -/
theorem Store.scan_exact (t : Table) (writes : Nat) (lead : Bytes) :
    ∃ es, Store.scan ⟨t, .none, writes⟩ lead = .ok es ∧
      Store.scanValues ⟨t, .none, writes⟩ lead = .ok (es.map Prod.snd) ∧
      Store.scanKeys ⟨t, .none, writes⟩ lead = .ok (es.map Prod.fst) ∧
      (∀ k v, (k, v) ∈ es ↔ t[k]? = some v ∧ lead <+: k) ∧
      es.Pairwise (fun e e' => e.1 < e'.1) ∧
      ∃ low high, t.toList = low ++ es ++ high ∧ (∀ e ∈ low, e.1 < lead) ∧
        ∀ e ∈ high, lead < e.1 ∧ ¬ lead <+: e.1 := by
  refine ⟨t.scan lead, rfl, rfl, rfl, fun k v => Table.mem_scan, t.pairwise_scan lead, ?_⟩
  refine ⟨t.below lead, t.above lead, t.toList_eq_parts lead, fun e he => ?_, fun e he => ?_⟩
  · exact Table.lt_of_mem_below he
  · exact ⟨Table.lt_of_mem_above he, Table.not_prefix_of_mem_above he⟩

-- No octet string could end this scan: there is none above all the keys that begin with `255`.
example : Store.scanKeys
    ⟨(∅ : Table).insert [254, 255] [1] |>.insert [255, 255, 0] [2] |>.insert [255] [3], .none, 0⟩
    [255] = .ok [[255], [255, 255, 0]] := by
  rfl

end Cospend
