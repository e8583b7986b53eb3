import Cospend.Proofs.Export.Complete

/-!
# Reading a sheet

A sheet is the lines of the rows, one after the other, with the addresses as they are. The lines can be told
apart as long as no address begins with the line of a row, which takes an end of line in an address.
-/

namespace Cospend

namespace Row

variable {r r' : Row} {rows rows' : List Row} {a : Address} {s s' : List Char}

/-! ## Lines -/

theorem toList_line (r : Row) :
    r.line.toList = r.address.text.toList ++ ',' :: (r.cluster.text.toList ++ ['\n']) := by
  simp [line]

theorem line_ne_nil (r : Row) : r.line.toList ≠ [] := by simp [toList_line]

theorem isDigit_of_mem_cluster {c : Char} (h : c ∈ r.cluster.text.toList) : c.isDigit = true := by
  have hrepr : r.cluster.text.toList = Nat.toDigits 10 r.cluster.toNat := Nat.toList_repr
  rw [hrepr] at h
  exact Nat.isDigit_of_mem_toDigits (by decide) (by decide) h

theorem cluster_text_inj (h : r.cluster.text.toList = r'.cluster.text.toList) : r.cluster = r'.cluster :=
  Partition.toNat_inj.mp (Nat.repr_inj.mp (String.toList_inj.mp h))

theorem toList_sheet (rows : List Row) : (sheet rows).toList = rows.flatMap fun r => r.line.toList := by
  have hfold : ∀ text : String, (rows.foldl (fun text r => text ++ r.line) text).toList =
      text.toList ++ rows.flatMap fun r => r.line.toList := by
    induction rows with
    | nil => simp
    | cons r rows ih =>
        intro text
        rw [List.foldl_cons, ih, String.toList_append, List.flatMap_cons, List.append_assoc]
  exact hfold ""

/-- The address begins with the line of the row. -/
def Opens (r : Row) (a : Address) : Prop := ∃ rest, a.text = r.line ++ rest

theorem Opens.length_le (h : r.Opens a) : r.line.length ≤ a.text.length := by
  obtain ⟨rest, h⟩ := h
  rw [h, String.length_append]
  exact Nat.le_add_right _ _

theorem opens_of_toList (rest : List Char) (h : a.text.toList = r.line.toList ++ rest) : r.Opens a := by
  refine ⟨String.ofList rest, String.toList_inj.mp ?_⟩
  rw [String.toList_append, String.toList_ofList, h]

/-! ## Telling lines apart -/

/-- A number ends at the first end of line after it. -/
theorem cluster_append_inj (h : r.cluster.text.toList ++ '\n' :: s = r'.cluster.text.toList ++ '\n' :: s') :
    r.cluster = r'.cluster ∧ s = s' := by
  have hspan : ∀ (r : Row) (s : List Char),
      (r.cluster.text.toList ++ '\n' :: s).takeWhile Char.isDigit = r.cluster.text.toList := by
    intro r s
    rw [List.takeWhile_append_of_pos fun c hc => isDigit_of_mem_cluster hc, List.takeWhile_cons_of_neg (by decide),
      List.append_nil]
  have hcluster : r.cluster.text.toList = r'.cluster.text.toList := by rw [← hspan r s, h, hspan]
  rw [hcluster, List.append_cancel_left_eq, List.cons.injEq] at h
  exact ⟨cluster_text_inj hcluster, h.2⟩

/-- Where the rest of a line begins again after some text, there is no text or it has a whole line's rest in
it. -/
theorem rest_of_line {text : List Char}
    (h : ',' :: (r.cluster.text.toList ++ '\n' :: s) = text ++ ',' :: (r'.cluster.text.toList ++ '\n' :: s')) :
    text = [] ∧ r.cluster = r'.cluster ∧ s = s' ∨
      ∃ later, text = ',' :: (r.cluster.text.toList ++ '\n' :: later) := by
  cases text with
  | nil => exact .inl ⟨rfl, cluster_append_inj (List.cons.inj h).2⟩
  | cons c text =>
      right
      obtain ⟨rfl, htail⟩ := List.cons.inj h
      rcases List.append_eq_append_iff.mp htail with ⟨later, rfl, hlater⟩ | ⟨digits, hdigits, hrest⟩
      · cases later with
        | nil => cases hlater
        | cons c later =>
            obtain ⟨rfl, -⟩ := List.cons.inj hlater
            exact ⟨later, rfl⟩
      · -- the comma would be a digit of the number
        cases digits with
        | nil => cases hrest
        | cons c digits =>
            obtain ⟨rfl, -⟩ := List.cons.inj hrest
            have hcomma : ',' ∈ r.cluster.text.toList := by
              rw [hdigits]
              exact List.mem_append_right _ List.mem_cons_self
            exact absurd (isDigit_of_mem_cluster hcomma) (by decide)

theorem eq_of_toList (haddress : r.address.text.toList = r'.address.text.toList)
    (hcluster : r.cluster = r'.cluster) : r = r' := by
  obtain ⟨c, ⟨text⟩⟩ := r
  obtain ⟨c', ⟨text'⟩⟩ := r'
  obtain rfl : text = text' := String.toList_inj.mp haddress
  rw [show c = c' from hcluster]

/-- Two texts that begin with a line begin with the same line, unless one line is in the address of the
other. -/
theorem line_append_inj (h : r.line.toList ++ s = r'.line.toList ++ s') :
    r = r' ∧ s = s' ∨ r.Opens r'.address ∨ r'.Opens r.address := by
  simp only [toList_line, List.append_assoc, List.cons_append, List.nil_append] at h
  rcases List.append_eq_append_iff.mp h with ⟨text, haddress, hrest⟩ | ⟨text, haddress, hrest⟩
  · rcases rest_of_line hrest with ⟨rfl, hcluster, hs⟩ | ⟨later, rfl⟩
    · rw [List.append_nil] at haddress
      exact .inl ⟨eq_of_toList haddress.symm hcluster, hs⟩
    · refine .inr (.inl (opens_of_toList later ?_))
      simp [haddress, toList_line]
  · rcases rest_of_line hrest with ⟨rfl, hcluster, hs⟩ | ⟨later, rfl⟩
    · rw [List.append_nil] at haddress
      exact .inl ⟨eq_of_toList haddress hcluster.symm, hs.symm⟩
    · refine .inr (.inr (opens_of_toList later ?_))
      simp [haddress, toList_line]

/-- Sheets with the same text have the same rows, unless an address in one of them begins with a line of the
other. -/
theorem sheet_inj (h : sheet rows = sheet rows') :
    rows = rows' ∨ ∃ r ∈ rows, ∃ r' ∈ rows', r.Opens r'.address ∨ r'.Opens r.address := by
  have hlines : (rows.flatMap fun r => r.line.toList) = rows'.flatMap fun r => r.line.toList := by
    rw [← toList_sheet, h, toList_sheet]
  clear h
  induction rows generalizing rows' with
  | nil =>
      cases rows' with
      | nil => exact .inl rfl
      | cons r' rows' =>
          rw [List.flatMap_nil, List.flatMap_cons] at hlines
          exact absurd (List.append_eq_nil_iff.mp hlines.symm).1 r'.line_ne_nil
  | cons r rows ih =>
      cases rows' with
      | nil =>
          rw [List.flatMap_nil, List.flatMap_cons] at hlines
          exact absurd (List.append_eq_nil_iff.mp hlines).1 r.line_ne_nil
      | cons r' rows' =>
          rw [List.flatMap_cons, List.flatMap_cons] at hlines
          rcases line_append_inj hlines with ⟨rfl, htail⟩ | hopens
          · rcases ih htail with rfl | ⟨x, hx, x', hx', hopens⟩
            · exact .inl rfl
            · exact .inr ⟨x, List.mem_cons_of_mem _ hx, x', List.mem_cons_of_mem _ hx', hopens⟩
          · exact .inr ⟨r, List.mem_cons_self, r', List.mem_cons_self, hopens⟩

/-- A row whose address begins with a line is not told from two rows. -/
theorem sheet_of_opens (before after : List Row) (r : Row) (rest : String) (c : AddressId) :
    sheet (before ++ ⟨c, ⟨r.line ++ rest⟩⟩ :: after) = sheet (before ++ r :: ⟨c, ⟨rest⟩⟩ :: after) := by
  apply String.toList_inj.mp
  simp only [toList_sheet, List.flatMap_append, List.flatMap_cons, toList_line, String.toList_append,
    List.append_assoc]

end Row

/-! ## Sheets in files -/

namespace Partition

variable {κ : Type} {p : Partition} {d : Directory κ} {path : String}

/-- An export that succeeds leaves the sheet of the rows in the file. -/
theorem sheet?_exportSheet {n : Nat} (h : (p.exportSheet d path).result = .ok n) :
    (p.exportSheet d path).destination.sheet? path = some (Row.sheet p.finalize.rows) := by
  obtain ⟨-, hlines⟩ := p.exportSheet_leaves d path
  cases hfile : d.sheetFile path with
  | error e =>
      rw [hfile] at hlines
      rw [hlines.1] at h
      cases h
  | ok file =>
      rw [hfile] at hlines
      exact hlines.2.1

/-- The rows tell the numbers of the addresses and their clusters. -/
theorem Numbered.rows_inj {q : Partition} (hp : p.Numbered) (hq : q.Numbered)
    (h : p.finalize.rows = q.finalize.rows) : p.ids = q.ids ∧ ∀ a, p.clusterOf a = q.clusterOf a := by
  have hlook : ∀ {p q : Partition}, p.Numbered → q.Numbered → p.finalize.rows = q.finalize.rows →
      ∀ {a : Address} {k : Nat}, p.ids[a]? = some k → q.ids[a]? = some k ∧ p.clusterOf a = q.clusterOf a := by
    intro p q hp hq h a k ha
    have hcluster := hp.clusterOf_eq_some ha
    have hrow := (hp.listed.at_number k ⟨_, a⟩).mpr ⟨ha, hcluster⟩
    rw [h] at hrow
    obtain ⟨hid, hsame⟩ := (hq.listed.at_number k _).mp hrow
    exact ⟨hid, hcluster.trans hsame.symm⟩
  have hids : p.ids = q.ids := Std.ExtTreeMap.ext_getElem? fun a => Option.ext fun k =>
    ⟨fun ha => (hlook hp hq h ha).1, fun ha => (hlook hq hp h.symm ha).1⟩
  refine ⟨hids, fun a => ?_⟩
  cases ha : p.ids[a]? with
  | none => rw [clusterOf, clusterOf, ← hids, ha]; rfl
  | some k => exact (hlook hp hq h ha).2

end Partition

namespace Session

variable {β γ : Type} [WriteBatch β] [LawfulBatch β] [WriteBatch γ] [LawfulBatch γ]

/-- Take the partitions of any two sessions, exported to any files. If the files have the same text, then the
exports have the same rows, so the same addresses have the same numbers and the same clusters; unless an address
of one of them begins with the line that the other one has for a row. -/
theorem Reachable.sheet_tells {usable usable' : Call → Prop} {s : Session β} {s' : Session γ}
    (h : Reachable usable s) (h' : Reachable usable' s') {κ κ' : Type} {d : Directory κ}
    {d' : Directory κ'} {path path' : String} {n n' : Nat}
    (hexport : (s.partition.exportSheet d path).result = .ok n)
    (hexport' : (s'.partition.exportSheet d' path').result = .ok n')
    (hsame : (s.partition.exportSheet d path).destination.sheet? path =
      (s'.partition.exportSheet d' path').destination.sheet? path') :
    let rows := s.partition.finalize.rows
    let rows' := s'.partition.finalize.rows
    (rows = rows' ∧ s.partition.ids = s'.partition.ids ∧
      ∀ a, s.partition.clusterOf a = s'.partition.clusterOf a) ∨
    ∃ r ∈ rows, ∃ r' ∈ rows', r.Opens r'.address ∨ r'.Opens r.address := by
  intro rows rows'
  rw [Partition.sheet?_exportSheet hexport, Partition.sheet?_exportSheet hexport'] at hsame
  refine (Row.sheet_inj (Option.some.inj hsame)).imp_left fun hrows => ⟨hrows, ?_⟩
  exact h.byRank.memory.toNumbered.rows_inj h'.byRank.memory.toNumbered hrows

/-- Two addresses in one cluster, merged in either order. Neither text has a line in it. -/
def pair : Session Delta := (start.run [.register ⟨"a,b"⟩, .register ⟨"c\nd"⟩, .union ⟨"a,b"⟩ ⟨"c\nd"⟩]).2

def pairFinalized : Session Delta :=
  (start.run [.register ⟨"a,b"⟩, .register ⟨"c\nd"⟩, .union ⟨"a,b"⟩ ⟨"c\nd"⟩, .finalize,
    .union ⟨"c\nd"⟩ ⟨"a,b"⟩]).2

theorem exportSheet_out {s : Session Delta} {rows : List Row} (h : s.partition.finalize.rows = rows) :
    (s.partition.exportSheet out "f").result = .ok rows.length ∧
      (s.partition.exportSheet out "f").destination.sheet? "f" = some (Row.sheet rows) := by
  obtain ⟨-, hlines⟩ := s.partition.exportSheet_leaves out "f"
  rw [sheetFile_out, h] at hlines
  exact ⟨hlines.1, hlines.2.1⟩

theorem Reachable.sheet_tells_pair :
    pair.partition.finalize.rows = pairFinalized.partition.finalize.rows ∧
      (pair.partition.exportSheet out "f").destination.sheet? "f" = some "a,b,0\nc\nd,0\n" ∧
      pair.partition.ids = pairFinalized.partition.ids := by
  have hpair : Reachable (fun _ => True) pair := Reachable.run .start rfl (by simp [Call.givesUp])
  have hpair' : Reachable (fun _ => True) pairFinalized := Reachable.run .start rfl (by simp [Call.givesUp])
  have hrows : pair.partition.finalize.rows = [⟨.ofNat 0, ⟨"a,b"⟩⟩, ⟨.ofNat 0, ⟨"c\nd"⟩⟩] := by decide +kernel
  have hrows' : pairFinalized.partition.finalize.rows = [⟨.ofNat 0, ⟨"a,b"⟩⟩, ⟨.ofNat 0, ⟨"c\nd"⟩⟩] := by
    decide +kernel
  obtain ⟨hresult, htext⟩ := exportSheet_out hrows
  obtain ⟨hresult', htext'⟩ := exportSheet_out hrows'
  rcases hpair.sheet_tells hpair' hresult hresult' (htext.trans htext'.symm) with ⟨hsame, hids, -⟩ | hopens
  · refine ⟨hsame, htext.trans ?_, hids⟩
    decide
  · -- every line is longer than every address
    rw [hrows, hrows'] at hopens
    have hlong : ∀ r ∈ ([⟨.ofNat 0, ⟨"a,b"⟩⟩, ⟨.ofNat 0, ⟨"c\nd"⟩⟩] : List Row),
        ∀ r' ∈ ([⟨.ofNat 0, ⟨"a,b"⟩⟩, ⟨.ofNat 0, ⟨"c\nd"⟩⟩] : List Row),
        r'.address.text.length < r.line.length := by decide
    obtain ⟨r, hr, r', hr', hopens | hopens⟩ := hopens
    · exact absurd hopens.length_le (Nat.not_le.mpr (hlong r hr r' hr'))
    · exact absurd hopens.length_le (Nat.not_le.mpr (hlong r' hr' r hr))

/-- One address with a line in it. -/
def lineInAddress : Session Delta := (start.run [.register ⟨"A,0\nB"⟩]).2

/-- Two addresses in one cluster. -/
def lineOfRow : Session Delta := (start.run [.register ⟨"A"⟩, .register ⟨"B"⟩, .union ⟨"A"⟩ ⟨"B"⟩]).2

/-- Two sessions of registering and merging leave the same text in the file, and have not even the same number of
rows. -/
theorem sheet_shared_with_line_in_address :
    Reachable (fun _ => True) lineInAddress ∧ Reachable (fun _ => True) lineOfRow ∧
      (lineInAddress.partition.exportSheet out "f").result = .ok 1 ∧
      (lineOfRow.partition.exportSheet out "f").result = .ok 2 ∧
      (lineInAddress.partition.exportSheet out "f").destination.sheet? "f" = some "A,0\nB,0\n" ∧
      (lineOfRow.partition.exportSheet out "f").destination.sheet? "f" = some "A,0\nB,0\n" ∧
      lineInAddress.partition.finalize.rows ≠ lineOfRow.partition.finalize.rows := by
  have hline : Reachable (fun _ => True) lineInAddress := Reachable.run .start rfl (by simp [Call.givesUp])
  have hline' : Reachable (fun _ => True) lineOfRow := Reachable.run .start rfl (by simp [Call.givesUp])
  have hrows : lineInAddress.partition.finalize.rows = [⟨.ofNat 0, ⟨"A,0\nB"⟩⟩] := by decide +kernel
  have hrows' : lineOfRow.partition.finalize.rows = [⟨.ofNat 0, ⟨"A"⟩⟩, ⟨.ofNat 0, ⟨"B"⟩⟩] := by decide +kernel
  obtain ⟨hresult, htext⟩ := exportSheet_out hrows
  obtain ⟨hresult', htext'⟩ := exportSheet_out hrows'
  refine ⟨hline, hline', hresult, hresult', htext.trans (by decide), htext'.trans (by decide), ?_⟩
  rw [hrows, hrows']
  decide

end Session

end Cospend
