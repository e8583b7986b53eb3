import Cospend.Proofs.Export.Insertion
import Cospend.Proofs.Export.Report
import Cospend.Proofs.Export.Rows
import Cospend.Proofs.Partition.Numbers
import Cospend.Proofs.Session.Ranks
import Mathlib.Data.List.Dedup
import Mathlib.Data.String.Basic
import Mathlib.Tactic.Tauto

/-!
# Exports are complete

The addresses have the numbers from zero on, each its own. So the row of an address stands at the place of its
number, in whatever order the map of the addresses comes. The clusters are counted by their roots, in the rows
and as groups of addresses, and all of these counts are the same.
-/

namespace Cospend

namespace Partition

variable {p : Partition} {entries : List (Address × Nat)} {e : Address × Nat} {r : Row} {k : Nat}

/-! ## The rows stand at the places of the numbers -/

theorem Numbered.perm_numbers (hp : p.Numbered) : p.numbers.Perm (List.range p.size) := by
  have hnodup : p.numbers.Nodup := nodup_numbers_iff.mpr fun _ _ _ => hp.ids_inj
  have hsub : p.numbers ⊆ List.range p.size := by
    intro i hi
    obtain ⟨a, ha⟩ := mem_numbers.mp hi
    exact List.mem_range.mpr (hp.ids_lt ha)
  refine (hnodup.subperm hsub).perm_of_length_le ?_
  rw [List.length_range, length_numbers, hp.ids_size]

theorem pairwise_sortBy_snd (entries : List (Address × Nat)) :
    (sortBy (fun a b => a.2 ≤ b.2) entries).Pairwise fun a b => a.2 ≤ b.2 := by
  have hsorted := @pairwise_sortBy (Address × Nat) (fun a b => a.2 ≤ b.2)
    (by simp only [decide_eq_true_eq]; omega) (by simp only [decide_eq_true_eq]; omega) entries
  exact hsorted.imp fun h => of_decide_eq_true h

/-- Sorting the addresses by their numbers, which are all that there are. -/
theorem Numbered.map_snd_sortBy (hp : p.Numbered) (h : entries.Perm p.ids.toList) :
    (sortBy (fun a b => a.2 ≤ b.2) entries).map Prod.snd = List.range p.size := by
  refine List.Perm.eq_of_pairwise (fun i j _ _ => Nat.le_antisymm) ?_ List.pairwise_le_range ?_
  · exact List.pairwise_map.mpr (pairwise_sortBy_snd entries)
  · exact (((sortBy_perm _ entries).trans h).map Prod.snd).trans hp.perm_numbers

theorem Numbered.getElem?_sortBy (hp : p.Numbered) (h : entries.Perm p.ids.toList) :
    (sortBy (fun a b => a.2 ≤ b.2) entries)[k]? = some e ↔ e.2 = k ∧ p.ids[e.1]? = some k := by
  have hnumbers := hp.map_snd_sortBy h
  have hforth : ∀ e : Address × Nat, (sortBy (fun a b => a.2 ≤ b.2) entries)[k]? = some e →
      e.2 = k ∧ p.ids[e.1]? = some k := by
    intro e he
    have hk : (List.range p.size)[k]? = some e.2 := by
      rw [← hnumbers, List.getElem?_map, he, Option.map_some]
    obtain rfl : k = e.2 := by
      obtain ⟨hlt, hk⟩ := List.getElem?_eq_some_iff.mp hk
      simpa using hk
    refine ⟨rfl, Std.ExtTreeMap.mem_toList_iff_getElem?_eq_some.mp (h.mem_iff.mp ?_)⟩
    exact mem_sortBy.mp (List.mem_of_getElem? he)
  refine ⟨hforth e, ?_⟩
  rintro ⟨rfl, he⟩
  have hlt : e.2 < (sortBy (fun a b => a.2 ≤ b.2) entries).length := by
    rw [← List.length_map Prod.snd, hnumbers, List.length_range]
    exact hp.ids_lt he
  -- whatever stands at that place has the same number, which no other address has
  obtain ⟨hnumber, hid⟩ := hforth _ (List.getElem?_eq_getElem hlt)
  rw [List.getElem?_eq_getElem hlt]
  exact congrArg some (Prod.ext (hp.ids_inj hid he) hnumber)

theorem Numbered.clusterOf_eq_some (hp : p.Numbered) {a : Address} (ha : p.ids[a]? = some k) :
    p.clusterOf a = some (AddressId.ofNat (p.forest.root k)).toNat := by
  have hroot := Nat.lt_trans (hp.forest.root_lt (hp.ids_lt ha)) hp.size_lt_uint64
  rw [clusterOf, ha, Option.map_some, toNat_ofNat hroot]

/-- The row at a place is that of the address with this number, with the number that stands for its
cluster. -/
theorem Numbered.getElem?_rowsOf (hp : p.Numbered) (h : entries.Perm p.ids.toList) :
    (p.finalize.rowsOf entries)[k]? = some r ↔
      p.ids[r.address]? = some k ∧ p.clusterOf r.address = some r.cluster.toNat := by
  rw [rowsOf, List.getElem?_map, Option.map_eq_some_iff]
  constructor
  · rintro ⟨⟨a, i⟩, he, rfl⟩
    obtain ⟨rfl, ha⟩ := (hp.getElem?_sortBy h).mp he
    rw [hp.row_finalize]
    exact ⟨ha, hp.clusterOf_eq_some ha⟩
  · rintro ⟨ha, hcluster⟩
    refine ⟨(r.address, k), (hp.getElem?_sortBy h).mpr ⟨rfl, ha⟩, ?_⟩
    rw [hp.clusterOf_eq_some ha] at hcluster
    rw [hp.row_finalize, toNat_inj.mp (Option.some.inj hcluster)]

theorem Numbered.rowsOf_eq (hp : p.Numbered) (h : entries.Perm p.ids.toList) :
    p.finalize.rowsOf entries = p.finalize.rows := by
  refine List.ext_getElem? fun k => Option.ext fun r => ?_
  rw [rows, hp.getElem?_rowsOf h]
  exact (hp.getElem?_rowsOf (.refl _)).symm

theorem perm_addresses_rows (p : Partition) : (p.rows.map Row.address).Perm p.ids.keys := by
  have hfst : p.rows.map Row.address =
      (sortBy (fun a b => a.2 ≤ b.2) p.ids.toList).map Prod.fst := by
    rw [rows, rowsOf, List.map_map]
    rfl
  rw [hfst, ← Std.ExtTreeMap.map_fst_toList_eq_keys]
  exact (sortBy_perm _ _).map Prod.fst

/-! ## The clusters are counted -/

/-- The numbers that stand for clusters. -/
def roots (p : Partition) : List Nat := (List.range p.size).filter fun i => p.forest.next i == i

theorem nodup_roots (p : Partition) : p.roots.Nodup := List.nodup_range.filter _

theorem length_roots (p : Partition) : p.roots.length = p.countRoots :=
  List.countP_eq_length_filter.symm

theorem Sound.roots_finalize (hp : p.Sound) : p.finalize.roots = p.roots := by
  have halike := hp.finalize
  rw [roots, roots, halike.size_eq]
  refine List.filter_congr fun i _ => ?_
  rw [Bool.eq_iff_iff, beq_iff_eq, beq_iff_eq]
  exact halike.forest.next_eq_self_iff

/-- Every node is the number of an address, so every root stands for the cluster of one. -/
theorem Numbered.mem_roots (hp : p.Numbered) : k ∈ p.roots ↔ ∃ a, p.clusterOf a = some k := by
  rw [roots, List.mem_filter, List.mem_range, beq_iff_eq]
  constructor
  · rintro ⟨hk, hnext⟩
    obtain ⟨a, ha⟩ := mem_numbers.mp (hp.perm_numbers.mem_iff.mpr (List.mem_range.mpr hk))
    refine ⟨a, ?_⟩
    rw [clusterOf, ha, Option.map_some, hp.forest.root_eq_self_iff.mpr hnext]
  · rintro ⟨a, ha⟩
    obtain ⟨i, hi, rfl⟩ := Option.map_eq_some_iff.mp ha
    exact ⟨hp.forest.root_lt (hp.ids_lt hi), hp.forest.next_root i⟩

theorem mem_foldl_group {groups : Std.ExtTreeMap Nat (List Address)} :
    k ∈ entries.foldl p.group groups ↔ k ∈ groups ∨ ∃ e ∈ entries, p.forest.root e.2 = k := by
  induction entries generalizing groups with
  | nil => simp
  | cons e entries ih =>
      rw [List.foldl_cons, ih, group, Std.ExtTreeMap.mem_insert, List.exists_mem_cons_iff]
      simp only [Std.LawfulEqCmp.compare_eq_iff_eq]
      tauto

theorem mem_groups_iff (h : entries.Perm p.ids.toList) :
    k ∈ entries.foldl p.group ∅ ↔ ∃ a, p.clusterOf a = some k := by
  rw [mem_foldl_group]
  simp [h.mem_iff, clusterOf, Std.ExtTreeMap.mem_toList_iff_getElem?_eq_some]

/-- There is one group for each root, in whatever order the addresses are put into groups. -/
theorem Numbered.size_groups (hp : p.Numbered) (h : entries.Perm p.ids.toList) :
    (entries.foldl p.group ∅).size = p.roots.length := by
  have hkeys : (entries.foldl p.group ∅).keys.Perm p.roots := by
    refine (List.perm_ext_iff_of_nodup Std.ExtTreeMap.nodup_keys p.nodup_roots).mpr fun k => ?_
    rw [Std.ExtTreeMap.mem_keys, mem_groups_iff h, hp.mem_roots]
  rw [← Std.ExtTreeMap.length_keys, hkeys.length_eq]

theorem Numbered.length_dedup_clusters (hp : p.Numbered) :
    (p.finalize.rows.map Row.cluster).dedup.length = p.roots.length := by
  have hinj : ∀ i ∈ p.roots, ∀ j ∈ p.roots, AddressId.ofNat i = AddressId.ofNat j → i = j := by
    have hlt : ∀ i ∈ p.roots, (AddressId.ofNat i).toNat = i := fun i hi =>
      toNat_ofNat (Nat.lt_trans (List.mem_range.mp (List.mem_filter.mp hi).1) hp.size_lt_uint64)
    intro i hi j hj hij
    rw [← hlt i hi, hij, hlt j hj]
  have hperm : (p.finalize.rows.map Row.cluster).dedup.Perm (p.roots.map AddressId.ofNat) := by
    refine (List.perm_ext_iff_of_nodup (List.nodup_dedup _) (p.nodup_roots.map_on hinj)).mpr fun c => ?_
    simp only [List.mem_dedup, List.mem_map, hp.mem_rows, hp.mem_roots]
    constructor
    · rintro ⟨r, hr, rfl⟩
      obtain ⟨k, hk, hc⟩ := Option.map_eq_some_iff.mp hr
      exact ⟨k, ⟨r.address, hk⟩, hc⟩
    · rintro ⟨k, ⟨a, ha⟩, rfl⟩
      exact ⟨⟨AddressId.ofNat k, a⟩, by rw [ha]; rfl, rfl⟩
  rw [hperm.length_eq, List.length_map]

/-- The rows have each registered address once, at the place of its number, and with the number that stands for
its cluster. -/
structure Listed (p : Partition) (rows : List Row) : Prop where
  at_number (k : Nat) (r : Row) :
    rows[k]? = some r ↔ p.ids[r.address]? = some k ∧ p.clusterOf r.address = some r.cluster.toNat
  length_eq : rows.length = p.size
  nodup : (rows.map Row.address).Nodup
  mem_iff (a : Address) : a ∈ rows.map Row.address ↔ p.contains a = true

theorem Numbered.listed (hp : p.Numbered) : p.Listed p.finalize.rows where
  at_number _ _ := hp.getElem?_rowsOf (.refl _)
  length_eq := by rw [length_rows, hp.finalize.ids_eq, hp.ids_size]
  nodup := p.finalize.perm_addresses_rows.nodup_iff.mpr Std.ExtTreeMap.nodup_keys
  mem_iff a := by
    rw [p.finalize.perm_addresses_rows.mem_iff, Std.ExtTreeMap.mem_keys, hp.finalize.ids_eq, contains,
      Std.ExtTreeMap.contains_iff_mem]

end Partition

/-- In every session the rows of an export are the same in whatever order the map of the addresses comes, and
there are as many different clusters in them as groups of addresses. An export to a file leaves exactly the
lines of the rows in the file, if the path leads to one. An export to a sink that succeeds has handed over all
rows, each in one batch, and the sink has taken every batch but those that cost a worker; and it succeeds if the
sink takes every batch. Only an export that succeeds answers with the number of addresses and tells of it and of
the number of clusters. It changes nothing of the partition but the ways to the roots, whether it succeeds or
not. -/
theorem Session.Reachable.export_complete {β : Type} [WriteBatch β] [LawfulBatch β] {usable : Call → Prop}
    {s : Session β} (h : Reachable usable s) {κ σ : Type} (d : Directory κ) (path : String) (sink : Sink σ)
    (workers batchSize : Nat) (schedule : Schedule) (state : σ) :
    let p := s.partition
    let rows := p.finalize.rows
    let toFile := p.exportSheet d path
    let toSink := p.exportSink sink workers batchSize schedule state
    p.Listed rows ∧
    (∀ entries : List (Address × Nat), entries.Perm p.ids.toList →
      p.finalize.rowsOf entries = rows ∧ (entries.foldl p.group ∅).size = p.clusters.size) ∧
    (rows.map Row.cluster).dedup.length = p.clusters.size ∧
    (∀ file, d.sheetFile path = .ok file → toFile.result = .ok p.size ∧
      toFile.destination.sheet? path = some (Row.sheet rows) ∧
      toFile.events = [.finalized p.size, .exported (d.pathOf path) p.size p.clusters.size]) ∧
    (∀ e, d.sheetFile path = .error e → toFile.result = .error (.error (.io e.message)) ∧
      toFile.destination = d ∧ toFile.events = [.finalized p.size]) ∧
    (∀ n, toSink.result = .ok n → n = p.size ∧
      toSink.events = [.finalized p.size, .exported "sink" p.size p.clusters.size] ∧
      ∃ order, order.Perm (Row.batches batchSize rows) ∧ order.flatten.Perm rows ∧
        (workers ≤ 1 → order.flatten = rows) ∧
        let (ends, state') := sink.handAll order state
        toSink.destination = state' ∧ ∀ e ∈ ends, e = .done ∨ e = .fatal) ∧
    (∀ e, toSink.result = .error e → toSink.events = [.finalized p.size]) ∧
    (workers ≤ Pool.workerLimit → (∀ batch s, (sink.insertIfAbsent batch s).1 = .done) →
      toSink.result = .ok p.size) ∧
    ∀ q, q = toFile.partition ∨ q = toSink.partition →
      q.height = p.height ∧ q.ids = p.ids ∧ q.size = p.size ∧ (∀ i, q.rank? i = p.rank? i) ∧
        (∀ i, q.forest.root i = p.forest.root i) ∧ q.clusters = p.clusters := by
  intro p rows toFile toSink
  have hp : p.Numbered := h.byRank.memory.toNumbered
  have halike := hp.finalize
  have hclusters : p.clusters.size = p.roots.length := hp.size_groups (.refl _)
  have hcount : p.finalize.countRoots = p.clusters.size := by
    rw [← Partition.length_roots, hp.roots_finalize, hclusters]
  have hlisted : p.Listed rows := hp.listed
  have hlength : p.finalize.rows.length = p.size := hlisted.length_eq
  obtain ⟨hfile, hlines⟩ := p.exportSheet_leaves d path
  simp only [hlength, hcount, halike.size_eq] at hlines
  refine ⟨hlisted, fun entries hentries => ⟨hp.rowsOf_eq hentries, ?_⟩, ?_, fun file hd => ?_, fun e hd => ?_,
    fun n hn => ?_, fun e he => ?_, fun hworkers hdone => ?_, fun q hq => ?_⟩
  · rw [hp.size_groups hentries, hclusters]
  · rw [hp.length_dedup_clusters, hclusters]
  · rwa [hd] at hlines
  · rwa [hd] at hlines
  · obtain ⟨hnumber, hevents, order, horder, hordered, hhanded⟩ :=
      p.exportSink_of_ok sink batchSize schedule state hn
    rw [hlength, hcount, halike.size_eq] at hevents
    have hflatten : (Row.batches batchSize rows).flatten = rows := Row.flatten_batches batchSize rows
    refine ⟨hnumber.trans hlength, hevents, order, horder, ?_, fun hone => ?_, hhanded⟩
    · exact hflatten ▸ horder.flatten
    · rw [hordered hone, hflatten]
  · rw [p.exportSink_of_error sink batchSize schedule state he, halike.size_eq]
  · rw [← hlength]
    exact p.exportSink_of_done hdone hworkers batchSize schedule state
  · have hsink := p.exportSink_leaves sink workers batchSize schedule state
    obtain rfl : q = p.finalize := hq.elim (fun h => h.trans hfile) fun h => h.trans hsink.1
    refine ⟨halike.height_eq, halike.ids_eq, halike.size_eq, fun i => ?_, halike.forest.root_eq,
      halike.clusters_eq⟩
    rw [Partition.rank?, Partition.rank?, halike.forest.rank_eq]

namespace Session

/-- Four addresses get into one tree of rank two. Their order is not that of their numbers, and a fifth one is
not written. -/
def fourWritten : Session Delta :=
  (start.run [.register ⟨"z"⟩, .register ⟨"y"⟩, .register ⟨"x"⟩, .register ⟨"w"⟩, .union ⟨"z"⟩ ⟨"y"⟩,
    .union ⟨"x"⟩ ⟨"w"⟩, .union ⟨"z"⟩ ⟨"x"⟩, .flush none, .register ⟨"v"⟩]).2

/-- The fifth address is lost with its batch. -/
def fourRead : Session Delta := ((fourWritten.perform .drop).2.perform (.restore .none)).2

def fourNumbered : Partition :=
  ⟨none, ⟨#[0, 0, 0, 2], #[2, 0, 1, 0]⟩,
    ((((∅ : Std.ExtTreeMap Address Nat).insert ⟨"w"⟩ 3).insert ⟨"x"⟩ 2).insert ⟨"y"⟩ 1).insert ⟨"z"⟩ 0⟩

theorem partition_fourRead : fourRead.partition = fourNumbered := by rfl

theorem reachable_fourRead : Reachable (fun _ => True) fourRead := by
  have hwritten : Reachable (fun _ => True) fourWritten := Reachable.run .start rfl (by simp [Call.givesUp])
  have hlost : fourWritten.lost = false := by rfl
  refine .call (.call hwritten trivial fun hl => ?_) trivial fun _ => rfl
  rw [hlost] at hl
  cases hl

def out : Directory Empty := .empty "out"

theorem sheetFile_out : out.sheetFile "f" = .ok "f" := by
  rw [Directory.sheetFile, String.contains_char_eq]
  decide +kernel

/-- Takes every batch and keeps the rows in a row. -/
def collecting : Sink (List Row) := ⟨fun batch rows => (.done, rows ++ batch)⟩

theorem Reachable.export_complete_fourRead :
    let p := fourNumbered
    let toFile := p.exportSheet out "f"
    let toSink := p.exportSink collecting 1 3 .first []
    fourRead.partition = p ∧ p.finalize.rows[3]? = some ⟨.ofNat 0, ⟨"w"⟩⟩ ∧
      p.finalize.rowsOf p.ids.toList.reverse = p.finalize.rows ∧
      toFile.result = .ok 4 ∧ toFile.destination.sheet? "f" = some "z,0\ny,0\nx,0\nw,0\n" ∧
      toFile.events = [.finalized 4, .exported (out.pathOf "f") 4 1] ∧
      toSink.result = .ok 4 ∧ toSink.events = [.finalized 4, .exported "sink" 4 1] ∧
      (∃ order, order.flatten = p.finalize.rows ∧ toSink.destination = (collecting.handAll order []).2) ∧
      toSink.partition.clusters = p.clusters := by
  intro p toFile toSink
  have hclusters : fourNumbered.clusters.size = 1 := by rfl
  have hrows : fourNumbered.finalize.rows = [⟨.ofNat 0, ⟨"z"⟩⟩, ⟨.ofNat 0, ⟨"y"⟩⟩, ⟨.ofNat 0, ⟨"x"⟩⟩,
      ⟨.ofNat 0, ⟨"w"⟩⟩] := by decide +kernel
  have hcomplete := reachable_fourRead.export_complete out "f" collecting 1 3 .first []
  rw [partition_fourRead] at hcomplete
  obtain ⟨hlisted, horder, -, hwritten, -, hinserted, -, hdone, hsame⟩ := hcomplete
  obtain ⟨hresult, hsheet, hevents⟩ := hwritten "f" sheetFile_out
  have hok := hdone (by decide) fun _ _ => rfl
  obtain ⟨-, hevents', order, -, -, hflatten, hstate, -⟩ := hinserted _ hok
  rw [hclusters] at hevents hevents'
  have hlast : fourNumbered.finalize.rows[3]? = some ⟨.ofNat 0, ⟨"w"⟩⟩ :=
    (hlisted.at_number _ _).mpr ⟨by rfl, by rfl⟩
  refine ⟨partition_fourRead, hlast, (horder _ (List.reverse_perm _)).1, hresult, hsheet.trans ?_, hevents, hok,
    hevents', ⟨order, hflatten (Nat.le_refl 1), hstate⟩, (hsame _ (.inr rfl)).2.2.2.2.2⟩
  rw [hrows]
  decide

end Session

end Cospend
