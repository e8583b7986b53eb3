import Cospend.Store.Table

/-!
# Scans are exact

The keys that begin with an octet string are neighbours in the order of the keys, and the octet
string itself does not come after any of them. So a scan, which starts there and stops at the first
other key, finds all of them.
-/

namespace Cospend

namespace Bytes

theorem not_lt_of_isPrefixOf {lead k : Bytes} (h : lead.isPrefixOf k = true) :
    compare k lead ≠ .lt := by
  induction lead generalizing k with
  | nil => cases k <;> simp [compare, List.compareLex]
  | cons a lead ih =>
      cases k with
      | nil => simp at h
      | cons b k =>
          simp only [List.isPrefixOf_cons_cons, Bool.and_eq_true, beq_iff_eq] at h
          obtain ⟨rfl, h⟩ := h
          rw [List.compare_cons_cons, show compare a a = .eq from Std.ReflCmp.compare_self]
          exact ih h

/-- What stands between an octet string and one of its continuations continues it as well. -/
theorem isPrefixOf_of_between {lead k k' : Bytes} (hlow : compare k lead ≠ .lt)
    (hhigh : compare k k' ≠ .gt) (hk' : lead.isPrefixOf k' = true) : lead.isPrefixOf k = true := by
  induction lead generalizing k k' with
  | nil => rfl
  | cons a lead ih =>
      cases k with
      | nil => exact absurd List.compare_nil_cons hlow
      | cons b k =>
          cases k' with
          | nil => simp at hk'
          | cons c k' =>
              simp only [List.isPrefixOf_cons_cons, Bool.and_eq_true, beq_iff_eq] at hk' ⊢
              obtain ⟨rfl, hk'⟩ := hk'
              rw [List.compare_cons_cons] at hlow hhigh
              cases hba : compare b a with
              | lt => rw [hba] at hlow; exact absurd rfl hlow
              | gt => rw [hba] at hhigh; exact absurd rfl hhigh
              | eq =>
                  rw [hba] at hlow hhigh
                  exact ⟨(Std.LawfulEqCmp.eq_of_compare hba).symm, ih hlow hhigh hk'⟩

end Bytes

namespace Table

variable {lead : Bytes} {es : List (Bytes × Bytes)}

/-- The order in which a table lists its entries. -/
abbrev Sorted (es : List (Bytes × Bytes)) : Prop := es.Pairwise fun a b => compare a.1 b.1 = .lt

theorem takeWhile_eq_filter (hs : Sorted es) (hlow : ∀ e ∈ es, compare e.1 lead ≠ .lt) :
    (es.takeWhile fun e => lead.isPrefixOf e.1) = es.filter fun e => lead.isPrefixOf e.1 := by
  induction es with
  | nil => rfl
  | cons e es ih =>
      obtain ⟨hhead, hs⟩ := List.pairwise_cons.mp hs
      by_cases he : lead.isPrefixOf e.1 = true
      · have hrest := ih hs fun e' he' => hlow e' (List.mem_cons_of_mem _ he')
        simp only [List.takeWhile_cons, List.filter_cons, he, hrest, ↓reduceIte]
      · simp only [List.takeWhile_cons, List.filter_cons, he, Bool.false_eq_true, ↓reduceIte]
        -- A later key that begins with `lead` would make the key of `e` begin with it.
        refine (List.filter_eq_nil_iff.mpr fun e' he' h => he ?_).symm
        refine Bytes.isPrefixOf_of_between (hlow e List.mem_cons_self) ?_ h
        rw [hhead e' he']
        decide

/-- No key is below `lead` where the scan starts, or after it. -/
theorem compare_ne_lt_of_mem_dropWhile (hs : Sorted es) {e : Bytes × Bytes}
    (he : e ∈ es.dropWhile fun e => (compare e.1 lead).isLT) : compare e.1 lead ≠ .lt := by
  induction es with
  | nil => simp at he
  | cons e' es ih =>
      obtain ⟨hhead, htail⟩ := List.pairwise_cons.mp hs
      by_cases he' : (compare e'.1 lead).isLT = true
      · rw [List.dropWhile_cons, if_pos he'] at he
        exact ih htail he
      · rw [List.dropWhile_cons, if_neg he', List.mem_cons] at he
        rw [Ordering.isLT_iff_eq_lt] at he'
        rcases he with rfl | hmem
        · exact he'
        · exact fun hlt => he' (Std.TransCmp.lt_trans (hhead e hmem) hlt)

theorem scan_list (hs : Sorted es) :
    ((es.dropWhile fun e => (compare e.1 lead).isLT).takeWhile fun e => lead.isPrefixOf e.1) =
      es.filter fun e => lead.isPrefixOf e.1 := by
  have hbelow : (es.takeWhile fun e => (compare e.1 lead).isLT).filter
      (fun e => lead.isPrefixOf e.1) = [] := by
    refine List.filter_eq_nil_iff.mpr fun e he h => Bytes.not_lt_of_isPrefixOf h ?_
    exact Ordering.isLT_iff_eq_lt.mp (List.all_eq_true.mp List.all_takeWhile e he)
  have hsplit := congrArg (List.filter fun e => lead.isPrefixOf e.1)
    (List.takeWhile_append_dropWhile (p := fun e => (compare e.1 lead).isLT) (l := es))
  rw [List.filter_append, hbelow, List.nil_append] at hsplit
  rw [← hsplit]
  exact takeWhile_eq_filter (hs.sublist (List.dropWhile_sublist _)) fun e he =>
    compare_ne_lt_of_mem_dropWhile hs he

theorem sorted_toList (t : Table) : Sorted t.toList := Std.ExtTreeMap.ordered_keys_toList

theorem scan_eq_filter (t : Table) (lead : Bytes) :
    t.scan lead = t.toList.filter fun e => lead.isPrefixOf e.1 :=
  scan_list t.sorted_toList

theorem mem_scan {t : Table} {e : Bytes × Bytes} :
    e ∈ t.scan lead ↔ t[e.1]? = some e.2 ∧ lead <+: e.1 := by
  rw [scan_eq_filter, List.mem_filter, List.isPrefixOf_iff_prefix,
    Std.ExtTreeMap.mem_toList_iff_getElem?_eq_some]

end Table

end Cospend
