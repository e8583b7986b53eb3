import Cospend.Export.Database
import Cospend.Proofs.Export.Relation
import Cospend.Proofs.Failure

/-!
# What a database promises

A database keeps a table, and a transaction works on a copy of it. What an operation does to the two, if it
succeeds and if it fails, is what the documentation of the database promises. From this it follows that a batch
is inserted as a whole or not at all.
-/

namespace Cospend

variable {δ : Type}

/-- Whether an operation ends well or with an error, it leaves a state that is to be expected then. -/
def Concludes (done failed : δ → Prop) : Except SinkError Unit × δ → Prop
  | (.ok (), s) => done s
  | (.error _, s) => failed s

theorem Concludes.bind {done done' failed : δ → Prop} {s : δ} {x : Query δ Unit} {f : Unit → Query δ Unit}
    (hx : Concludes done failed (x s)) (hf : ∀ s', done s' → Concludes done' failed (f () s')) :
    Concludes done' failed ((x >>= f) s) := by
  refine bind_cases (fun e s' hr => ?_) fun _ s' hr => ?_ <;> rw [hr] at hx
  · exact hx
  · exact hf s' hx

theorem concludes_of_ok {failed : δ → Prop} {x : Except SinkError Unit × δ} (h : x.1 = .ok ()) :
    Concludes (fun _ => True) failed x := by
  rcases x with ⟨e | _, s⟩
  · cases h
  · trivial

/-- An answer is as told, unless the operation that it rests on has failed. -/
def Answered {α γ : Type} (operation : Except SinkError α) (P : γ → Prop) (x : Except SinkError γ) : Prop :=
  (∃ c, x = .ok c ∧ P c) ∨ ∃ e, operation = .error e ∧ x = .error e

section Answers

variable {α γ : Type} {operation : Except SinkError α} {P Q : γ → Prop} {x : Except SinkError γ} {c : γ}

theorem Answered.imp (h : Answered operation P x) (hPQ : ∀ c, P c → Q c) : Answered operation Q x :=
  h.imp_left fun ⟨c, hc, hP⟩ => ⟨c, hc, hPQ c hP⟩

end Answers

section Sinks

variable {db : Database δ} {rows : List Row} {s s' : δ}

theorem Database.sink_of_ok (h : db.insertIfAbsent rows s = (.ok (), s')) :
    db.sink.insertIfAbsent rows s = (.done, s') := by
  simp only [Database.sink, ExceptT.run, h]

theorem Database.sink_of_error {e : SinkError} (h : db.insertIfAbsent rows s = (.error e, s')) :
    db.sink.insertIfAbsent rows s = (.failed e, s') := by
  simp only [Database.sink, ExceptT.run, h]

end Sinks

/-- The promises of a database. `Holds s t` says that the table is `t`, and `Within s t u` says moreover that
a transaction is at work and has made `u` of it. -/
structure Database.Lawful (db : Database δ) (Holds : δ → Relation → Prop)
    (Within : δ → Relation → Relation → Prop) : Prop where
  /-- The cluster and the address are the primary key, so no row is there twice. -/
  primary_key {s : δ} {t : Relation} : Holds s t → t.entries.Nodup
  begin {s : δ} {t : Relation} : Holds s t → Concludes (Within · t t) (Holds · t) (db.begin s)
  prepare {s : δ} {t u : Relation} :
    Within s t u → Concludes (Within · t u) (fun s' => ∃ u', Within s' t u') (db.prepare s)
  /-- A row that is inserted stands behind the others, and it is ignored if it is there. -/
  insert_or_ignore {s : δ} {t u : Relation} (e : Relation.Entry) :
    Within s t u → Concludes (Within · t (u.insert e)) (fun s' => ∃ u', Within s' t u') (db.insertOrIgnore e s)
  /-- What is committed is the table from then on. -/
  commit {s : δ} {t u : Relation} :
    Within s t u → Concludes (Holds · u) (fun s' => ∃ u', Within s' t u') (db.commit s)
  /-- A transaction that is given up leaves the table as it was. -/
  roll_back {s : δ} {t u : Relation} : Within s t u → Holds (db.rollBack s) t
  select {s : δ} {t : Relation} (a : String) : Holds s t → Holds (db.selectCluster a s).2 t
  /-- Of several rows with an address the earliest one is found. -/
  earliest {s : δ} {t : Relation} {a : String} {c : Option Int64} :
    Holds s t → (db.selectCluster a s).1 = .ok c → c = t.firstCluster a
  count {s : δ} {t : Relation} : Holds s t → Holds (db.count s).2 t
  counted {s : δ} {t : Relation} {n : Int64} : Holds s t → (db.count s).1 = .ok n → n.toInt = t.size

namespace Database.Lawful

variable {db : Database δ} {Holds : δ → Relation → Prop} {Within : δ → Relation → Relation → Prop}
variable {s : δ} {t u : Relation}

/-! ## Inserting a batch -/

theorem forM_insertOrIgnore (h : db.Lawful Holds Within) (hs : Within s t u) (rows : List Row) :
    Concludes (Within · t (u.insertRows rows)) (fun s' => ∃ u', Within s' t u')
      ((rows.forM fun r => db.insertOrIgnore (.ofRow r)) s) := by
  induction rows generalizing s u with
  | nil => exact hs
  | cons r rows ih => exact (h.insert_or_ignore (.ofRow r) hs).bind fun _ hs' => ih hs'

theorem insertRows (h : db.Lawful Holds Within) (hs : Within s t u) (rows : List Row) :
    Concludes (Holds · (u.insertRows rows)) (fun s' => ∃ u', Within s' t u') (db.insertRows rows s) := by
  refine (h.prepare hs).bind fun s₁ h₁ => ?_
  exact (h.forM_insertOrIgnore h₁ rows).bind fun s₂ h₂ => h.commit h₂

/-- A batch is inserted as a whole, or it leaves the table as it was. -/
theorem insertIfAbsent (h : db.Lawful Holds Within) (hs : Holds s t) (rows : List Row) :
    Concludes (Holds · (t.insertRows rows)) (Holds · t) (db.insertIfAbsent rows s) := by
  refine (h.begin hs).bind fun s₁ h₁ => ?_
  have hrows := h.insertRows h₁ rows
  refine tryCatch_cases (fun e s₂ hr => ?_) fun _ s₂ hr => ?_ <;> rw [hr] at hrows
  · obtain ⟨u', hu'⟩ := hrows
    exact h.roll_back hu'
  · exact hrows

/-! ## Asking for clusters and for the number of rows -/

/-- A signed number that is none below zero is the same without its sign. -/
theorem toNat_toUInt64 {n : Int64} {k : Nat} (h : n.toInt = k) : n.toUInt64.toNat = k := by
  have hint : n.toBitVec.toInt = k := h
  have hcond := BitVec.toInt_eq_toNat_cond n.toBitVec
  rw [show n.toUInt64.toNat = n.toBitVec.toNat from rfl]
  omega

/-- The answer is the cluster that the address was first inserted with. -/
theorem clusterOf (h : db.Lawful Holds Within) (hs : Holds s t) (a : Address) :
    Holds (db.clusterOf a s).2 t ∧
      Answered (db.selectCluster a.text s).1 (· = t.clusterOf a) (db.clusterOf a s).1 := by
  have hselect := h.select a.text hs
  unfold Database.clusterOf
  rcases hr : db.selectCluster a.text s with ⟨e | c, s'⟩ <;> rw [hr] at hselect
  · rw [bind_of_error hr]
    exact ⟨hselect, .inr ⟨e, rfl, rfl⟩⟩
  · rw [bind_of_ok hr, Relation.clusterOf, ← h.earliest hs (congrArg Prod.fst hr)]
    exact ⟨hselect, .inl ⟨_, rfl, rfl⟩⟩

theorem size (h : db.Lawful Holds Within) (hs : Holds s t) :
    Holds (db.size s).2 t ∧ Answered (db.count s).1 (fun n => n.toNat = t.size) (db.size s).1 := by
  have hcount := h.count hs
  unfold Database.size
  rcases hr : db.count s with ⟨e | n, s'⟩ <;> rw [hr] at hcount
  · rw [bind_of_error hr]
    exact ⟨hcount, .inr ⟨e, rfl, rfl⟩⟩
  · rw [bind_of_ok hr]
    exact ⟨hcount, .inl ⟨_, rfl, toNat_toUInt64 (h.counted hs (congrArg Prod.fst hr))⟩⟩

end Database.Lawful

/-! ## Databases that do not fail -/

/-- None of the operations of a transaction fails. -/
structure Database.Faultless (db : Database δ) : Prop where
  begin (s : δ) : (db.begin s).1 = .ok ()
  prepare (s : δ) : (db.prepare s).1 = .ok ()
  insertOrIgnore (e : Relation.Entry) (s : δ) : (db.insertOrIgnore e s).1 = .ok ()
  commit (s : δ) : (db.commit s).1 = .ok ()

namespace Database.Faultless

variable {db : Database δ}

theorem insertRows (h : db.Faultless) (rows : List Row) (s : δ) :
    Concludes (fun _ => True) (fun _ => False) (db.insertRows rows s) := by
  have hrows (s : δ) : Concludes (fun _ => True) (fun _ => False)
      ((rows.forM fun r => db.insertOrIgnore (.ofRow r)) s) := by
    induction rows generalizing s with
    | nil => trivial
    | cons r rows ih => exact (concludes_of_ok (h.insertOrIgnore (.ofRow r) s)).bind fun s' _ => ih s'
  refine (concludes_of_ok (h.prepare s)).bind fun s₁ _ => ?_
  exact (hrows s₁).bind fun s₂ _ => concludes_of_ok (h.commit s₂)

/-- No batch is refused. -/
theorem insertIfAbsent_sink (h : db.Faultless) (rows : List Row) (s : δ) :
    (db.sink.insertIfAbsent rows s).1 = .done := by
  have hends : Concludes (fun _ => True) (fun _ => False) (db.insertIfAbsent rows s) := by
    refine (concludes_of_ok (h.begin s)).bind fun s₁ _ => ?_
    have hrows := h.insertRows rows s₁
    refine tryCatch_cases (fun e s₂ hr => ?_) fun _ s₂ _ => trivial
    rw [hr] at hrows
    exact hrows.elim
  rcases hr : db.insertIfAbsent rows s with ⟨e | _, s'⟩
  · rw [hr] at hends
    exact hends.elim
  · rw [sink_of_ok hr]

end Database.Faultless

end Cospend
