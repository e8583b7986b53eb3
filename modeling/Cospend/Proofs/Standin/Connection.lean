import Cospend.Proofs.Standin.Memory
import Cospend.Standin.Connection

/-!
# The database in a file keeps its promises

A relation is in a file if its pages are found, in the log or in the file itself, and the user does not
remember others. Then every statement is answered from that relation, and a change leaves the changed relation
in the file. This holds as long as no sheet is written over the file or the log.
-/

namespace Cospend

variable {α γ : Type} {s : PageSource} {t : Relation} {m : PageMemory}

/-! ## Statements on one relation -/

/-- The pages that are found, in the log or in the file, are those of a relation. -/
structure PageSource.Shows (s : PageSource) (t : Relation) : Prop where
  pages : Page.all.length ≤ s.log.pages s.file
  image : ∀ p, s.log.image s.file p = p.image t

/-- A change leaves the header as it was and writes all other pages. -/
theorem PageSource.Shows.commit {log : PageLog} {file : Contents PageFile} (hs : PageSource.Shows ⟨file, log⟩ t)
    (t' : Relation) : PageSource.Shows ⟨file, log.commit t'⟩ t' where
  pages := by simp [PageLog.pages, PageLog.commit]
  image p := by
    cases p with
    | header =>
        have himage : log.image file .header = .header Page.all.length := hs.image .header
        cases hi : log.images .header with
        | none => simpa [PageLog.image, PageLog.commit, Page.image, hi] using himage
        | some i =>
            have heq : i = .header Page.all.length := by simpa [PageLog.image, hi] using himage
            simp [PageLog.image, PageLog.commit, hi, heq, Page.image]
    | table | keys | addresses => rfl

namespace PageMemory

/-- What a user remembers since the latest change are the pages of the relation. The header is the same
for all relations. -/
structure Agrees (commits : Nat) (t : Relation) (m : PageMemory) : Prop where
  images : m.seen = commits → ∀ p i, m.images p = some i → i = p.image t
  header : ∀ i, m.images .header = some i → i = .header Page.all.length

/-- The user has taken note of the latest change. -/
structure Current (commits : Nat) (t : Relation) (m : PageMemory) : Prop where
  seen : m.seen = commits
  images : ∀ p i, m.images p = some i → i = p.image t

variable {commits : Nat}

theorem Current.agrees (h : m.Current commits t) : m.Agrees commits t :=
  ⟨fun _ => h.images, h.images .header⟩

theorem Agrees.refresh (h : m.Agrees commits t) : (m.refresh commits).Current commits t := by
  unfold PageMemory.refresh
  split
  · rename_i hseen
    exact ⟨hseen, h.images hseen⟩
  · exact ⟨rfl, nofun⟩

theorem Current.remember (h : m.Current commits t) (p : Page) :
    (m.remember p (p.image t)).Current commits t := by
  refine ⟨h.seen, ?_⟩
  intro q i hi
  simp only [PageMemory.remember] at hi
  split at hi
  · rename_i hq
    cases hi
    rw [hq]
  · exact h.images q i hi

end PageMemory

namespace Statement

/-- From a memory with the one property the statement answers `a`, and it leaves one with the other. -/
def Yields (x : Statement α) (s : PageSource) (pre : PageMemory → Prop) (a : α)
    (post : PageMemory → Prop) : Prop :=
  ∀ m, pre m → ∃ m', x.outcome s m = (.ok a, m') ∧ post m'

variable {pre mid post : PageMemory → Prop}

theorem outcome_get {f : PageMemory → Statement α} : (get >>= f).outcome s m = (f m).outcome s m := rfl

theorem outcome_read {f : PageSource → Statement α} : (read >>= f).outcome s m = (f s).outcome s m := rfl

theorem yields_pure (a : α) : (pure a : Statement α).Yields s pre a pre := fun m hm => ⟨m, rfl, hm⟩

theorem Yields.bind {x : Statement α} {f : α → Statement γ} {a : α} {c : γ} (hx : x.Yields s pre a mid)
    (hf : (f a).Yields s mid c post) : (x >>= f).Yields s pre c post := by
  intro m hm
  obtain ⟨m', hx, hm'⟩ := hx m hm
  obtain ⟨m'', hf, hm''⟩ := hf m' hm'
  exact ⟨m'', (bind_of_ok hx).trans hf, hm''⟩

theorem Yields.weaken {x : Statement α} {a : α} (hx : x.Yields s pre a mid) (h : ∀ m, mid m → post m) :
    x.Yields s pre a post := by
  intro m hm
  obtain ⟨m', hx, hm'⟩ := hx m hm
  exact ⟨m', hx, h m' hm'⟩

/-- The user knows the relation that the pages are those of. -/
abbrev Knows (s : PageSource) (t : Relation) : PageMemory → Prop := PageMemory.Current s.log.commits t

theorem page_yields (hs : s.Shows t) (p : Page) :
    (page p).Yields s (Knows s t) (p.image t) (Knows s t) := by
  intro m hm
  have himage : p.image t ≠ .missing := by cases p <;> simp [Page.image]
  cases hi : m.images p with
  | some i =>
      obtain rfl := hm.images p i hi
      refine ⟨m, ?_, hm⟩
      rw [page, outcome_get]
      simp only [hi]
      rfl
  | none =>
      refine ⟨m.remember p (p.image t), ?_, hm.remember p⟩
      rw [page, outcome_get]
      simp only [hi, outcome_read, hs.image, if_neg himage]
      rfl

theorem rows_yields (hs : s.Shows t) {p : Page} (hp : p ≠ .header) :
    (rows p).Yields s (Knows s t) t (Knows s t) := by
  apply (page_yields hs p).bind
  cases p with
  | header => exact absurd rfl hp
  | table => exact yields_pure t
  | keys => exact yields_pure t
  | addresses => exact yields_pure t

theorem begin_yields (hs : s.Shows t) :
    begin.Yields s (PageMemory.Agrees s.log.commits t) () (Knows s t) := by
  have hrefresh : Statement.Yields (modify fun m => m.refresh s.log.commits) s
      (PageMemory.Agrees s.log.commits t) ⟨⟩ (Knows s t) := fun m hm => ⟨_, rfl, hm.refresh⟩
  intro m hm
  rw [begin, outcome_read]
  refine hrefresh.bind ?_ m hm
  apply (page_yields hs .header).bind
  simp only [Page.image]
  rw [if_neg (Nat.not_lt.mpr hs.pages)]
  exact yields_pure ()

/-- Asked of the relation, the statement answers `a`, and the user then remembers nothing else. -/
def Answers (x : Statement α) (t : Relation) (a : α) : Prop :=
  ∀ s : PageSource, s.Shows t →
    x.Yields s (PageMemory.Agrees s.log.commits t) a (PageMemory.Agrees s.log.commits t)

theorem answers_begin {x : Statement α} {a : α}
    (hx : ∀ s : PageSource, s.Shows t → x.Yields s (Knows s t) a (Knows s t)) :
    (begin >>= fun _ => x).Answers t a :=
  fun s hs => ((begin_yields hs).bind (hx s hs)).weaken fun _ => PageMemory.Current.agrees

/-- The relation with the rows in it is made if some of them are new. -/
theorem addition_answers (t : Relation) (added : List Relation.Entry) : (addition added).Answers t
    (if added.foldl Relation.insert t = t then none else some (added.foldl Relation.insert t)) := by
  by_cases hadded : added = []
  · rw [addition, if_pos hadded, if_pos (by rw [hadded]; rfl)]
    exact fun s hs => yields_pure _
  · rw [addition, if_neg hadded]
    apply answers_begin
    intro s hs
    apply (rows_yields hs (p := .table) nofun).bind
    apply (rows_yields hs (p := .keys) nofun).bind
    split
    · exact yields_pure _
    · apply (rows_yields hs (p := .addresses) nofun).bind
      exact yields_pure _

end Statement

/-! ## Connections -/

theorem Host.logOf_ne (file : String) : logOf file ≠ file := by
  intro h
  have hlength := congrArg String.length h
  simp [logOf] at hlength

theorem Host.contents_write_of_ne {h : Host} {file file' : String} (hne : file ≠ file')
    (x : Contents PageFile) : (h.write file x).contents file' = h.contents file' := by
  simp [write, contents, Directory.write, Std.ExtTreeMap.getD_insert, hne]

namespace Connection

variable {c : Connection} {h : Host} {x : Transaction}

/-- The users of a file and their log. -/
abbrev source (c : Connection) (h : Host) (u : Usage) : PageSource := ⟨h.contents c.file, u.log⟩

/-- The relation is in the file, and the user remembers no other. -/
def InFile (c : Connection) (h : Host) (t : Relation) : Prop :=
  ∃ u, h.inUse[c.file]? = some u ∧ (c.source h u).Shows t ∧
    (u.users.getD c.number .new).Agrees u.log.commits t

/-- A statement that answers well leaves the relation in the file. -/
theorem InFile.run (ht : c.InFile h t) {x : Statement α} {a : α} (hx : x.Answers t a) :
    (c.run x h).1 = .ok a ∧ c.InFile (c.run x h).2 t := by
  obtain ⟨u, hu, hs, hm⟩ := ht
  obtain ⟨m', hout, hm'⟩ := hx _ hs _ hm
  simp only [Connection.run, hu, hout]
  refine ⟨rfl, { u with users := u.users.insert c.number m' }, ?_, hs, ?_⟩
  · simp
  · simpa using hm'

theorem InFile.commit (ht : c.InFile h t) (t' : Relation) : c.InFile (c.commit t' h) t' := by
  obtain ⟨u, hu, hs, hm⟩ := ht
  have hcommitted : (c.commitTo t' u).log = u.log.commit t' := rfl
  -- the file itself stays as it was, whether the log still has a name or not
  have hcontents : ∀ h' : Host, h'.contents c.file = h.contents c.file →
      h'.inUse = h.inUse.insert c.file (c.commitTo t' u) → c.InFile h' t' := by
    intro h' hfile huse
    refine ⟨c.commitTo t' u, by simp [huse], ?_, ?_, ?_⟩
    · rw [source, hfile, hcommitted]
      exact hs.commit t'
    · intro _ p i hi
      cases p with
      | header => exact hm.header i (by simpa [commitTo] using hi)
      | table | keys | addresses => simpa [commitTo, eq_comm] using hi
    · intro i hi
      exact hm.header i (by simpa [commitTo] using hi)
  simp only [Connection.commit, hu]
  split
  · exact hcontents _ (Host.contents_write_of_ne (Host.logOf_ne c.file) _) rfl
  · exact hcontents _ rfl rfl

/-! ## The promises -/

/-- The relation is in the file, and has no row twice. -/
def Holds (c : Connection) (x : Transaction) (t : Relation) : Prop := c.InFile x.host t ∧ t.entries.Nodup

/-- The rows that are kept for the end of the transaction make the one relation of the other. -/
def Within (c : Connection) (x : Transaction) (t u : Relation) : Prop :=
  c.Holds x t ∧ x.added.foldl Relation.insert t = u ∧ u.entries.Nodup

theorem Holds.ask (ht : c.Holds x t) {q : Statement α} {a : α} (hq : q.Answers t a) :
    ∃ host, c.ask q x = (.ok a, { x with host }) ∧ c.InFile host t := by
  obtain ⟨hanswer, hhost⟩ := ht.1.run hq
  exact ⟨(c.run q x.host).2, Prod.ext hanswer rfl, hhost⟩

theorem Within.commitAdded {u : Relation} (hx : c.Within x t u) :
    ∃ x', c.commitAdded x = (.ok (), x') ∧ c.Holds x' u := by
  obtain ⟨ht, hu, hnodup⟩ := hx
  obtain ⟨host, hask, hhost⟩ := ht.ask (Statement.addition_answers t x.added)
  rw [Connection.commitAdded, bind_get, bind_of_ok hask, hu]
  split
  · rename_i hsame
    exact ⟨_, rfl, hsame ▸ hhost, hnodup⟩
  · exact ⟨_, rfl, hhost.commit u, hnodup⟩

end Connection

end Cospend
