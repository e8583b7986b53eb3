import Cospend.Proofs.Clusterizer.Balance
import Cospend.Proofs.Clusterizer.Served

/-!
# The walk to the tip

A run takes the walk up after the last checkpoint, makes one checkpoint after the other and ends at the first
one that is not below the tip. The tip is asked for after each checkpoint, and may have moved on or back since;
as long as it stays below the greatest height the walk ends.
-/

namespace Cospend

variable {owners : List Address} {start checkpoint : Option Height} {height : Height} {heights : List Height}

/-- The height of a checkpoint, which counts as minus one if there is none. -/
def levelOf (checkpoint : Option Height) : Int := checkpoint.elim (-1) Height.toInt

/-! ## Walks -/

namespace Ledger

variable {l : Ledger}

/-- The ledger tells of the tip after `start` and after every later checkpoint, and of the next block if the
tip is above the checkpoint then. -/
structure Serves (l : Ledger) (owners : List Address) (start : Option Height) : Prop where
  tip {checkpoint : Option Height} (h : checkpoint = start ∨ levelOf start < levelOf checkpoint) :
    ∃ tip, l.tip checkpoint = .ok tip ∧ tip.toInt < 0x7FFFFFFF
  block {checkpoint : Option Height} {tip next : Height}
    (h : checkpoint = start ∨ levelOf start < levelOf checkpoint) (htip : l.tip checkpoint = .ok tip)
    (hnext : next.toInt = levelOf checkpoint + 1) (hle : next ≤ tip) : l.Supplies owners next

/-- The heights that are walked over from a checkpoint, as the tip is told of after each of them. -/
inductive Walk (l : Ledger) : (checkpoint : Option Height) → (heights : List Height) → Prop
  | arrived {checkpoint : Option Height} {tip : Height} (htip : l.tip checkpoint = .ok tip)
    (hle : tip.toInt ≤ levelOf checkpoint) : Walk l checkpoint []
  | onward {checkpoint : Option Height} {tip next : Height} {heights : List Height}
    (htip : l.tip checkpoint = .ok tip) (hlt : levelOf checkpoint < tip.toInt)
    (hnext : next.toInt = levelOf checkpoint + 1) (h : Walk l (some next) heights) :
    Walk l checkpoint (next :: heights)

namespace Walk

/-- No height is left out, and none comes twice. -/
theorem toInt_eq (h : l.Walk checkpoint heights) {k : Nat} {g : Height} (hg : heights[k]? = some g) :
    g.toInt = levelOf checkpoint + 1 + k := by
  induction h generalizing k with
  | arrived => cases hg
  | @onward checkpoint tip next heights _ _ hnext _ ih =>
      cases k with
      | zero =>
          cases hg
          omega
      | succ k =>
          have hg := ih hg
          simp only [levelOf, Option.elim_some] at hg hnext ⊢
          omega

/-- The tip is above every checkpoint before the last one. -/
theorem tip_above (h : l.Walk checkpoint heights) {g : Option Height}
    (hg : g ∈ (checkpoint :: heights.map some).dropLast) :
    ∃ tip, l.tip g = .ok tip ∧ levelOf g < tip.toInt := by
  induction h with
  | arrived => cases hg
  | onward htip hlt _ _ ih =>
      rcases List.mem_cons.mp hg with rfl | hg
      · exact ⟨_, htip, hlt⟩
      · exact ih hg

theorem arrives (h : l.Walk checkpoint heights) :
    ∃ tip, l.tip (heights.getLast?.or checkpoint) = .ok tip ∧
      tip.toInt ≤ levelOf (heights.getLast?.or checkpoint) := by
  induction h with
  | arrived htip hle => exact ⟨_, htip, hle⟩
  | @onward checkpoint tip next heights _ _ _ _ ih =>
      rwa [List.getLast?_cons, Option.some_or, ← Option.or_some]

theorem length_le (h : l.Walk checkpoint heights) : heights.length ≤ 0xFFFFFFFF := by
  have hlow : -0x80000000 ≤ levelOf checkpoint := by
    cases checkpoint with
    | none => decide
    | some g => exact g.le_toInt
  cases hlast : heights.getLast? with
  | none =>
      obtain rfl := List.getLast?_eq_none_iff.mp hlast
      exact Nat.zero_le _
  | some g =>
      rw [List.getLast?_eq_getElem?] at hlast
      have hlevel := h.toInt_eq hlast
      have hmax := g.toInt_lt
      omega

/-- Nothing was ever written exactly if there was nothing to begin with and no block to come. -/
theorem last_eq_none_iff (h : l.Walk checkpoint heights) : heights.getLast?.or checkpoint = none ↔
    checkpoint = none ∧ ∃ tip, l.tip none = .ok tip ∧ tip.toInt < 0 := by
  rw [Option.or_eq_none_iff, List.getLast?_eq_none_iff]
  constructor
  · rintro ⟨rfl, rfl⟩
    cases h with
    | arrived htip hle =>
        have hle : _ ≤ -1 := hle
        exact ⟨rfl, _, htip, by omega⟩
  · rintro ⟨rfl, tip, htip, hlt⟩
    cases h with
    | arrived => exact ⟨rfl, rfl⟩
    | onward htip' hlt' =>
        cases htip.symm.trans htip'
        have hlt' : -1 < tip.toInt := hlt'
        omega

end Walk

end Ledger

namespace Clusterizer

variable {β : Type} [WriteBatch β] {c c' d : Clusterizer β} {env : Environment} {p : Partition}
variable {phases : List Phase}

/-! ## Steps that succeed -/

/-- The phases that successive steps lead to. -/
inductive Passes (env : Environment) : Clusterizer β → List Phase → Clusterizer β → Prop
  | nil (c : Clusterizer β) : Passes env c [] c
  | cons {c d c' : Clusterizer β} {phase : Phase} {phases : List Phase}
    (hstep : step env c = (.ok phase, d)) (h : Passes env d phases c') : Passes env c (phase :: phases) c'

/-- Every block is processed and written, and then the walk is done. -/
def visits (heights : List Height) : List Phase :=
  heights.flatMap (fun height => [.processing height, .checkpointing height]) ++ [.done]

/-- Steps up to the one that ends the walk are a run. -/
theorem Passes.runFor (h : Passes env c (phases ++ [.done]) c') (hnot : .done ∉ phases) {steps : Nat}
    (hsteps : phases.length < steps) : runFor env steps c = (.ok c'.partition.height, c') := by
  obtain ⟨steps, rfl⟩ := Nat.exists_eq_succ_of_ne_zero (Nat.ne_zero_of_lt hsteps)
  induction phases generalizing c steps with
  | nil =>
      cases h with
      | cons hstep h =>
          cases h
          rw [Clusterizer.runFor, bind_of_ok hstep]
          rfl
  | cons phase phases ih =>
      cases h with
      | @cons _ d _ _ _ hstep h =>
          obtain ⟨hphase, hnot⟩ := List.ne_and_not_mem_of_not_mem_cons hnot
          rw [List.length_cons, Nat.succ_lt_succ_iff] at hsteps
          obtain ⟨steps, rfl⟩ := Nat.exists_eq_succ_of_ne_zero (Nat.ne_zero_of_lt hsteps)
          have hrest := ih h hnot steps hsteps
          rw [Clusterizer.runFor, bind_of_ok hstep]
          cases phase with
          | done => exact absurd rfl hphase
          | _ => exact hrest

theorem Passes.runFor_visits (h : Passes env c (visits heights) c') {steps : Nat}
    (hsteps : 2 * heights.length < steps) : Clusterizer.runFor env steps c = (.ok c'.partition.height, c') := by
  refine h.runFor ?_ ?_
  · simp
  · rw [List.length_flatMap]
    simpa [Nat.mul_comm] using hsteps

/-- A step leads from done to done and does nothing. -/
theorem step_of_done (hphase : c.phase = .done) (env : Environment) : step env c = (.ok .done, c) := by
  have htransition : transition env c.phase c = (.ok .done, c) := by
    rw [hphase]
    rfl
  rw [step_of_transition htransition, ← hphase]

theorem run_of_done (hphase : c.phase = .done) (env : Environment) :
    run env c = (.ok c.partition.height, c) := by
  have hpasses : Passes env c ([] ++ [.done]) c := .cons (step_of_done hphase env) (.nil c)
  exact hpasses.runFor List.not_mem_nil (by decide)

theorem flush_of_fault {reason : String} (height : Height) (b : Pending β)
    (hwrite : c.store.faults.write c.store.writes = some reason) :
    ∃ log, flush height b c = (.error (.error (.partition (.store ⟨reason⟩))),
      { c with store := { c.store with writes := c.store.writes + 1 }, log }) := by
  simp only [flush, Partition.flush, Store.write, hwrite]
  exact ⟨_, rfl⟩

/-- A write that fails leaves a partition that is to be read back. -/
theorem step_of_fault {reason : String} (hphase : c.phase = .checkpointing height)
    (hwrite : c.store.faults.write c.store.writes = some reason) (env : Environment) :
    ∃ log, step env c = (.error (.error (.partition (.store ⟨reason⟩))), { c with
      store := { c.store with writes := c.store.writes + 1 }
      phase := .idle, pending := none, stale := c.stale || true, log }) := by
  let b := (c.pending.getD .empty).stage .height height
  obtain ⟨log, hflush⟩ := flush_of_fault (c := { c with pending := none }) height b hwrite
  refine ⟨log, ?_⟩
  have hcheckpoint := (checkpoint_eq height c).trans (bind_of_error hflush)
  simp only [step, hphase, transition, bind_of_error hcheckpoint]
  rfl

/-! ## The run -/

theorem heightAfter_of_level (h : levelOf checkpoint < 0x7FFFFFFF) :
    ∃ next, heightAfter checkpoint = .ok next ∧ next.toInt = levelOf checkpoint + 1 := by
  cases checkpoint with
  | none => exact ⟨.genesis, rfl, rfl⟩
  | some g => exact heightAfter_of_lt h

variable [LawfulBatch β]

/-- A block that was decided on is processed and written, and the next decision is at hand. -/
theorem Ready.onward (h : Ready owners p d) {next : Height} (hsupplies : env.ledger.Supplies owners next)
    (htransition : transition env c.phase c = (.ok (.processing next), d)) :
    ∃ c₁ q d₁ es, (∀ {phases : List Phase} {c' : Clusterizer β}, Passes env c₁ phases c' →
        Passes env c (.processing next :: .checkpointing next :: phases) c') ∧
      transition env c₁.phase c₁ = phaseAfter env q.height d₁ ∧ Ready owners q d₁ ∧ q.height = some next ∧
      d₁.published = d.published ++ es ∧
      es.filterMap Event.phase? = [.processing next, .checkpointing next] := by
  let processing : Clusterizer β := { d with phase := .processing next }
  have hready : Ready owners p processing := { h with }
  obtain ⟨c₁, q, d₁, es, hstep, htransition₁, hready₁, hheight, hpublished, hes⟩ := hready.block rfl hsupplies
  refine ⟨c₁, q, d₁, es, fun hpasses => ?_, hheight ▸ htransition₁, hready₁, hheight, hpublished, hes⟩
  exact .cons (step_of_transition htransition) (.cons hstep hpasses)

/-- From the decision after a checkpoint on, block after block is processed and written until the tip is not
above the last of them. -/
theorem Ready.passes (hserves : env.ledger.Serves owners start) (h : Ready owners p d)
    (hstart : p.height = start ∨ levelOf start < levelOf p.height) (hmax : levelOf p.height < 0x7FFFFFFF)
    (htransition : transition env c.phase c = phaseAfter env p.height d) :
    ∃ heights c' q es, env.ledger.Walk p.height heights ∧ Passes env c (visits heights) c' ∧
      Ready owners q c' ∧ c'.phase = .done ∧ q.height = heights.getLast?.or p.height ∧
      c'.published = d.published ++ es ∧ es.filterMap Event.phase? = visits heights := by
  -- the heights that are left below the greatest one become fewer with every block
  obtain ⟨n, hn⟩ : ∃ n : Nat, levelOf p.height + n = 0x7FFFFFFF :=
    ⟨(0x7FFFFFFF - levelOf p.height).toNat, by omega⟩
  induction n generalizing c d p with
  | zero => omega
  | succ n ih =>
      obtain ⟨next, hnext, hlevel⟩ := heightAfter_of_level hmax
      obtain ⟨tip, htip, hbound⟩ := hserves.tip hstart
      rw [phaseAfter_of_ok hnext htip] at htransition
      by_cases hle : next ≤ tip
      · rw [if_pos hle] at htransition
        obtain ⟨c₁, q, d₁, es₁, hcons, htransition₁, hready₁, hheight, hpublished₁, hes₁⟩ :=
          h.onward (hserves.block hstart htip hlevel hle) htransition
        have hle : next.toInt ≤ tip.toInt := hle
        have hlevel₁ : levelOf q.height = levelOf p.height + 1 := by
          rw [hheight]
          exact hlevel
        have hlater : levelOf start < levelOf q.height := by
          rcases hstart with rfl | hstart <;> omega
        obtain ⟨heights, c', q', es, hwalk, hpasses, hready', hdone, hlast, hpublished, hes⟩ :=
          ih hready₁ (.inr hlater) (by omega) htransition₁ (by omega)
        refine ⟨next :: heights, c', q', es₁ ++ es, ?_, hcons hpasses, hready', hdone, ?_, ?_, ?_⟩
        · exact .onward htip (by omega) hlevel (hheight ▸ hwalk)
        · rw [hlast, hheight, List.getLast?_cons, Option.some_or, Option.or_some]
        · rw [hpublished, hpublished₁, List.append_assoc]
        · rw [List.filterMap_append, hes₁, hes]
          rfl
      · rw [if_neg hle] at htransition
        have hle : ¬ next.toInt ≤ tip.toInt := hle
        exact ⟨[], _, p, [.caughtUp p.height], .arrived htip (by omega),
          .cons (step_of_transition htransition) (.nil _), { h with }, rfl, rfl, rfl, rfl⟩

omit [LawfulBatch β] in
/-- An idle clusterizer comes to the decision after the checkpoint that the store holds, with a stale partition
read back. -/
theorem Weighted.ready (h : Weighted p c) (hidle : c.phase = .idle) (hfaults : c.store.faults = .none)
    (hroomy : p.Roomy owners) (env : Environment) :
    ∃ d es, transition env c.phase c = phaseAfter env p.height d ∧ Ready owners p d ∧
      d.published = c.published ++ es ∧ es.filterMap Event.phase? = [] := by
  rw [hidle, transition, resume]
  cases hstale : c.stale with
  | false =>
      have habreast := h.abreast
      rw [Abreast, hidle] at habreast
      have halike := habreast hstale
      rw [bind_of_ok (recover_of_not_stale hstale), bind_get, halike.height_eq]
      exact ⟨c, [], rfl, ⟨hroomy, h.table, hfaults, hstale, halike⟩, (List.append_nil _).symm, rfl⟩
  | true =>
      have hload := Partition.load_eq_ok.mpr (h.numbered.loadedFrom hfaults h.table)
      obtain ⟨log, hrecover⟩ := recover_of_ok hstale hload
      rw [bind_of_ok hrecover, bind_get]
      exact ⟨_, _, rfl, ⟨hroomy, h.table, hfaults, rfl, h.numbered.toSound.alike⟩, rfl, rfl⟩

end Clusterizer

open Clusterizer

variable {β : Type} [WriteBatch β] [LawfulBatch β] {c : Clusterizer β} {past : List Event}

/-- Take an idle clusterizer over a store that any number of clusterizers left, whatever failed, with a
checkpoint below the greatest height or none. Let nothing fail from now on: the ledger answers, the store does
as well, and there is room for all whose outputs are spent. If the ledger puts no tip at the greatest height,
then a run ends however the tip moves. It processes and writes one block after the other, from the one after
the checkpoint to the first one that is not below the tip when it was written, and answers its height. After
that neither a step nor a run does anything, whatever the tip is then. -/
theorem Chronicle.run_visits (h : Chronicle past (.clusterizer c)) (hidle : c.phase = .idle)
    (hfaults : c.store.faults = .none) (hread : c.store.read .height = .ok start)
    (hstart : levelOf start < 0x7FFFFFFF) (hroom : owners.length < Partition.capacityLimit)
    (howned : ∀ (a : Address) (id : AddressId), c.store.read (.addressId a) = .ok (some id) → a ∈ owners)
    {env : Environment} (hserves : env.ledger.Serves owners start) :
    ∃ heights last c', last = heights.getLast?.or start ∧
      (∀ (k : Nat) (g : Height), heights[k]? = some g → g.toInt = levelOf start + 1 + k) ∧
      (∀ g ∈ (start :: heights.map some).dropLast,
        ∃ tip, env.ledger.tip g = .ok tip ∧ levelOf g < tip.toInt) ∧
      (∃ tip, env.ledger.tip last = .ok tip ∧ tip.toInt ≤ levelOf last) ∧
      (last = none ↔ start = none ∧ ∃ tip, env.ledger.tip none = .ok tip ∧ tip.toInt < 0) ∧
      Passes env c (visits heights) c' ∧
      (∃ es, c'.published = c.published ++ es ∧ es.filterMap Event.phase? = visits heights) ∧
      run env c = (.ok last, c') ∧
      (∀ steps, 2 * heights.length < steps → Clusterizer.runFor env steps c = (.ok last, c')) ∧
      c'.phase = .done ∧ c'.partition.height = last ∧ c'.store.read .height = .ok last ∧
      ∀ env', step env' c' = (.ok .done, c') ∧ run env' c' = (.ok last, c') := by
  obtain ⟨p, hp⟩ := h.weighted
  have hc := hp.clusterizer rfl
  have hlook := Partition.read_table hfaults hc.table
  obtain rfl : p.height = start := Except.ok.inj ((hlook .height).symm.trans hread)
  have hroomy : p.Roomy owners := by
    refine ⟨hc.numbered, hc.balanced, fun {a} ha => ?_, hroom⟩
    obtain ⟨i, hi⟩ := Partition.contains_iff.mp ha
    refine howned a (.ofNat i) ((hlook (.addressId a)).trans ?_)
    rw [Partition.value?, hi]
    rfl
  obtain ⟨d, es, htransition, hready, hpublished, hes⟩ := hc.ready hidle hfaults hroomy env
  obtain ⟨heights, c', q, es', hwalk, hpasses, hready', hdone, hlast, hpublished', hes'⟩ :=
    hready.passes hserves (.inl rfl) hstart htransition
  have hheight : c'.partition.height = heights.getLast?.or p.height :=
    hready'.alike.height_eq.trans hlast
  have hrun (steps : Nat) (hsteps : 2 * heights.length < steps) :
      Clusterizer.runFor env steps c = (.ok (heights.getLast?.or p.height), c') := by
    rw [hpasses.runFor_visits hsteps, hheight]
  have hlimit : 2 * heights.length < stepLimit := by
    have hlength := hwalk.length_le
    simp only [stepLimit]
    omega
  refine ⟨heights, _, c', rfl, fun _ _ => hwalk.toInt_eq, fun _ => hwalk.tip_above, hwalk.arrives,
    hwalk.last_eq_none_iff, hpasses, ⟨es ++ es', ?_, ?_⟩, hrun _ hlimit, hrun, hdone, hheight, ?_, fun env' => ?_⟩
  · rw [hpublished', hpublished, List.append_assoc]
  · rw [List.filterMap_append, hes, hes', List.nil_append]
  · rw [Partition.read_table hready'.faultless hready'.table, ← hlast]
    rfl
  · rw [← hheight]
    exact ⟨step_of_done hdone env', run_of_done hdone env'⟩

/-! ## A tip that moves -/

namespace Sample

def one : Height where
  toInt := 1

/-- The tip is above the first block at first, and goes back once that one and the next are written. -/
def tipAfter : Option Height → Height
  | none => ⟨2, by decide, by decide⟩
  | some h => if h = .genesis then one else .genesis

/-- The sample chain with a tip that moves. -/
def moving : Environment :=
  .sequential { sample.ledger .genesis with tip := fun checkpoint => .ok (tipAfter checkpoint) } 2

theorem supplies_moving (h : Height) : moving.ledger.Supplies [⟨"a"⟩, ⟨"b"⟩] h := by
  refine ⟨sample.block h, rfl, fun place id hid => ?_⟩
  have hid : [spending][place]? = some id := hid
  obtain rfl : place = 0 := by
    have hlt := (List.getElem?_eq_some_iff.mp hid).1
    simpa using hlt
  cases hid
  refine ⟨sample.transaction spending, rfl, fun k o ho => ?_⟩
  have ho : ([⟨paid, 0⟩, ⟨paid, 1⟩, ⟨paid, 2⟩] : List Outpoint)[k]? = some o := ho
  match k with
  | 0 | 1 | 2 =>
      cases ho
      exact ⟨sample.transaction paid, _, rfl, rfl, by simp⟩
  | k + 3 => cases ho

theorem serves_moving : moving.ledger.Serves [⟨"a"⟩, ⟨"b"⟩] none where
  tip {checkpoint} _ := by
    refine ⟨tipAfter checkpoint, rfl, ?_⟩
    cases checkpoint with
    | none => decide
    | some h => rw [tipAfter]; split <;> decide
  block _ _ _ _ := supplies_moving _

/-- The write of the block fails. -/
def failing : Except (Failure ClusterizerError) Phase × Clusterizer Delta :=
  step env { interrupted with store := interrupted.store.withFaults (.ofWrites 0 1 "full") }

/-- After that the store does not fail any more. -/
def recovering : Clusterizer Delta := { failing.2 with store := failing.2.store.withFaults .none }

theorem failing_eq : failing.1 = .error (.error (.partition (.store ⟨"full"⟩))) ∧ failing.2.phase = .idle ∧
    failing.2.stale = true ∧ failing.2.store.table = ∅ := by
  have hphase : interrupted.phase = .checkpointing .genesis := by decide +kernel
  have htable : interrupted.store.table = ∅ := by decide +kernel
  have hwrite : (Faults.ofWrites 0 1 "full").write 0 = some "full" := rfl
  obtain ⟨log, hstep⟩ := step_of_fault
    (c := { interrupted with store := interrupted.store.withFaults (.ofWrites 0 1 "full") }) hphase hwrite env
  rw [failing, hstep]
  exact ⟨rfl, rfl, Bool.or_true _, htable⟩

theorem chronicle_recovering : Chronicle [] (.clusterizer recovering) := by
  have hinterrupted : Chronicle [] (.clusterizer interrupted : Scene Delta) := chronicle_interrupted .new
  have hfailed : Chronicle [] (.clusterizer failing.2) :=
    (hinterrupted.withFaults (.ofWrites 0 1 "full")).stepped (Prod.ext failing_eq.1 rfl) (by simp)
  exact hfailed.withFaults .none

/-- The tip is asked for after no block, after the first one and after the second one. -/
theorem heights_moving {heights : List Height}
    (hlevels : ∀ (k : Nat) (g : Height), heights[k]? = some g → g.toInt = levelOf none + 1 + k)
    (habove : ∀ g ∈ (none :: heights.map some).dropLast,
      ∃ tip, moving.ledger.tip g = .ok tip ∧ levelOf g < tip.toInt)
    (harrives : ∃ tip, moving.ledger.tip (heights.getLast?.or none) = .ok tip ∧
      tip.toInt ≤ levelOf (heights.getLast?.or none)) : heights = [.genesis, one] := by
  match heights with
  | [] =>
      obtain ⟨tip, htip, hle⟩ := harrives
      cases htip
      exact absurd hle (by decide)
  | [g] =>
      obtain rfl : g = .genesis := Height.ext (hlevels 0 g rfl)
      obtain ⟨tip, htip, hle⟩ := harrives
      cases htip
      exact absurd hle (by decide)
  | [g, g'] =>
      obtain rfl : g = .genesis := Height.ext (hlevels 0 g rfl)
      obtain rfl : g' = one := Height.ext (hlevels 1 g' rfl)
      rfl
  | g :: g' :: g'' :: heights =>
      obtain rfl : g' = one := Height.ext (hlevels 1 g' rfl)
      obtain ⟨tip, htip, hlt⟩ := habove (some one) (by simp)
      cases htip
      exact absurd hlt (by decide)

end Sample

open Sample in
/-- The block whose write failed is processed again. Another one follows, as the tip is above the first one
then, and no more, as it is back by the time that is written. -/
theorem Chronicle.run_visits_recovering :
    recovering.phase = .idle ∧ recovering.stale = true ∧ ∃ c', run moving recovering = (.ok (some one), c') ∧
      Passes moving recovering (visits [.genesis, one]) c' ∧ c'.store.read .height = .ok (some one) := by
  obtain ⟨-, hidle, hstale, htable⟩ := failing_eq
  have hread := Partition.read_table (q := .empty) (s := recovering.store) rfl
    (htable.trans Partition.table_empty.symm)
  have howned (a : Address) (id : AddressId) (h : recovering.store.read (.addressId a) = .ok (some id)) :
      a ∈ [(⟨"a"⟩ : Address), ⟨"b"⟩] := by
    cases (hread (.addressId a)).symm.trans h
  obtain ⟨heights, _, c', rfl, hlevels, habove, harrives, -, hpasses, -, hrun, -, -, -, hdurable, -⟩ :=
    chronicle_recovering.run_visits hidle rfl (hread .height) (by decide) (by decide) howned serves_moving
  obtain rfl := heights_moving hlevels habove harrives
  exact ⟨hidle, hstale, c', hrun, hpasses, hdurable⟩

end Cospend
