import Mathlib
import RowReduction.EncodedBasis
import RowReduction.Proofs.Preimages

/-!
Preimages that are found by replaying a basis. The basis keeps exactly the settled rows that are
not zero, with their records, and zero rows take no part in a reduction. So a replay leaves the
same rows as the elimination that the basis comes from, also after the basis was written as bytes
and read back.
-/
namespace RowReduction

open EchelonForm

variable {e : Encoding} {p : SmallPrime} {k m n r : Nat}

namespace PivotBasis

variable [Storage.Memory] {b : PivotBasis (RowMatrix e)} {l : RowMatrix e} {pacer : Pacer}

def pairs (b : PivotBasis (RowMatrix e)) (p : SmallPrime) (k n m : Nat) : List (Pair p n m) :=
  (List.range k).map (Reduction.basisRow b p n m)

/-- The rows of `l`, each reduced by the first `k` rows of the basis. -/
structure Replays (b : PivotBasis (RowMatrix e)) (l : RowMatrix e) (p : SmallPrime) (k r n m : Nat)
    (s : Reduction e) : Prop where
  shaped : s.Shaped p r n m
  pairs : ∀ j, j < r → s.pair p n m j =
    reduce (Pair.vector p n m) (b.pairs p k n m) (l.vec p n j, 0)

/-- The rows of the image reduce alone, without the records. -/
theorem Replays.residue_eq {i : Nat} {s : Reduction e} (replays : b.Replays l p i r n m s) {j : Nat}
    (hj : j < r) : s.residues.vec p n j =
      reduce (plain (Residue p) n) ((List.range i).map (b.image.vec p n)) (l.vec p n j) := by
  have pair := congrArg Prod.fst (replays.pairs j hj)
  refine pair.trans ((reduce_map (Pair.vector p n m) (plain (Residue p) n) (Pair.vector p n m)
    (fun _ => rfl) _ (l.vec p n j, 0)).trans ?_)
  rw [PivotBasis.pairs, List.map_map]
  rfl

theorem preimages_eq (hb : b.Shaped p k n m) (hl : l.Shaped p r n) (fits : Fits e r m)
    (pacer : Pacer) : b.preimages l pacer = (do
      let ⟨(s, pacer), replayed⟩ ← Reduction.replay b 0 ⟨l, RowMatrix.blank e p r m⟩ pacer b.pivots
      return ⟨(s.residues, pacer), replayed.map fun () => s.subtracted⟩) := by
  simp only [preimages, prime, columns, hb.image.checkWidths_ok hl, hb.image.prime, hl.prime,
    hl.rows, sourceRows, hb.combinations.columns, RowMatrix.new_of_fits hl.supported fits]
  rfl

theorem replay_all (hb : b.Shaped p k n m) (hl : l.Shaped p r n) (fits : Fits e r m)
    (pacer : Pacer) :
    ∃ s, Reduction.replay b 0 ⟨l, RowMatrix.blank e p r m⟩ pacer b.pivots =
        .ok ⟨(s, pacer.afterRows k), Pacer.ending (pacer.stopRow k)⟩ ∧
      b.Replays l p ((pacer.stopRow k).getD k) r n m s := by
  have blank := RowMatrix.blank_shaped hl.supported hl.rows_le hb.combinations.columns_le fits
  obtain ⟨s, run, shaped, pairs⟩ := Reduction.replay_ok hb b.pivots 0
    (by rw [Nat.zero_add, hb.length])
    (fun t pivot place => by rw [Nat.zero_add]; exact place)
    (s := ⟨l, RowMatrix.blank e p r m⟩) ⟨hl, blank⟩ pacer
  rw [rank, hb.length] at run pairs
  refine ⟨s, run, shaped, ?_⟩
  intro j hj
  have initial : (⟨l, RowMatrix.blank e p r m⟩ : Reduction e).pair p n m j =
      (l.vec p n j, 0) := by
    rw [Reduction.pair, RowMatrix.vec_blank, neg_zero]
  simp only [pairs j hj, initial, Nat.zero_add, Nat.sub_zero, PivotBasis.pairs,
    List.range_eq_range', Pacer.stopRow]

theorem preimages_ok (hb : b.Shaped p k n m) (hl : l.Shaped p r n) (fits : Fits e r m)
    (uninterrupted : pacer.stopRow k = none) :
    ∃ s, b.preimages l pacer = .ok ⟨(s.residues, pacer.afterRows k), .ok s.subtracted⟩ ∧
      b.Replays l p k r n m s := by
  obtain ⟨s, run, replays⟩ := replay_all hb hl fits pacer
  rw [uninterrupted] at run replays
  refine ⟨s, ?_, replays⟩
  rw [preimages_eq hb hl fits, run]
  rfl

theorem preimages_interrupted (hb : b.Shaped p k n m) (hl : l.Shaped p r n) (fits : Fits e r m)
    {row : Nat} (stopped : pacer.stopRow k = some row) :
    ∃ s, b.preimages l pacer = .ok ⟨(s.residues, pacer.afterRows k), .error .interrupted⟩ ∧
      b.Replays l p row r n m s := by
  obtain ⟨s, run, replays⟩ := replay_all hb hl fits pacer
  rw [stopped] at run replays
  refine ⟨s, ?_, replays⟩
  rw [preimages_eq hb hl fits, run]
  rfl

theorem preimages_refused (hb : b.Shaped p k n m) (hl : l.Shaped p r n) (large : ¬ Fits e r m)
    (pacer : Pacer) :
    ∃ cells bytes, b.preimages l pacer =
      .ok ⟨(l, pacer), .error (.storage (.outOfMemory cells bytes))⟩ := by
  obtain ⟨cells, bytes, refused⟩ := RowMatrix.new_of_not_fits (e := e) hl.supported large
  refine ⟨cells, bytes, ?_⟩
  simp only [preimages, prime, columns, hb.image.checkWidths_ok hl, hb.image.prime, hl.prime,
    hl.rows, sourceRows, hb.combinations.columns, refused]
  rfl

/-- Every call that replays a basis ends in one of the three ways. -/
theorem preimages_ends (hb : b.Shaped p k n m) (hl : l.Shaped p r n) (pacer : Pacer) :
    Ends (b.preimages l pacer) (¬ Fits e r m) (pacer.stopRow k ≠ none)
      fun state answer => b.Replays l p k r n m ⟨state.1, answer⟩ := by
  apply ends_of_cases
  · intro large
    obtain ⟨_, _, call⟩ := preimages_refused hb hl large pacer
    exact ⟨_, _, call⟩
  · intro enough row stop
    obtain ⟨s, call, -⟩ := preimages_interrupted hb hl (not_not.mp enough) stop
    exact ⟨_, call⟩
  · intro enough stop
    obtain ⟨s, call, replays⟩ := preimages_ok hb hl (not_not.mp enough) stop
    exact ⟨_, s.subtracted, call, replays⟩

end PivotBasis

namespace RowMatrix

variable [Storage.Memory] {a left l residues answer : RowMatrix e} {b : PivotBasis (RowMatrix e)}

theorem HoldsBasis.basis_shaped (holds : a.HoldsBasis left b) (image : a.HoldsImage left) :
    b.Shaped a.prime a.pivotsOf.length a.columns a.rows where
  image := holds.image ▸ image.shaped
  combinations := holds.shaped
  length := by rw [holds.pivots, PivotBasis.length_renumber]
  pivots := by
    intro k pivot place
    rw [holds.pivots, PivotBasis.getElem?_renumber, Option.map_eq_some_iff] at place
    obtain ⟨initial, place, rfl⟩ := place
    obtain ⟨c, leads, same⟩ :=
      pivotOf_eq_some.mp (mem_pivotsBefore.mp (List.mem_of_getElem? place)).2
    rw [holds.image, image.rows k initial place, pivotOf_eq_some]
    refine ⟨c, leads, ?_⟩
    rw [same]

/-- The rows of a basis are the settled rows that are not zero. -/
theorem HoldsBasis.pairs_eq (holds : a.HoldsBasis left b) (image : a.HoldsImage left) :
    b.pairs a.prime a.pivotsOf.length a.columns a.rows =
      (settled (Pair.vector a.prime a.columns a.rows) a.recordedRows a.rows).filter
        fun x => Pair.vector a.prime a.columns a.rows x ≠ 0 := by
  -- Both lists follow the pivots: row `k` of the basis is the settled row of the `k`-th one.
  rw [← map_pivotsBefore]
  apply map_range_length
  intro k pivot place
  rw [Reduction.basisRow, holds.image, image.rows k pivot place, holds.rows k pivot place]

/-- A replay leaves what the elimination leaves. -/
theorem HoldsBasis.reduces (holds : a.HoldsBasis left b) (image : a.HoldsImage left)
    (replays : b.Replays l a.prime a.pivotsOf.length r a.columns a.rows ⟨residues, answer⟩) :
    a.Reduces l residues answer r := by
  refine ⟨replays.shaped.residues, replays.shaped.subtracted, ?_⟩
  intro j hj
  have pair := replays.pairs j hj
  rw [holds.pairs_eq image, reduce_filter] at pair
  exact pair

theorem Reduces.unique {residues' answer' : RowMatrix e}
    (reduces : a.Reduces l residues answer r) (reduces' : a.Reduces l residues' answer' r) :
    answer = answer' ∧ residues = residues' := by
  have same (j : Nat) (hj : j < r) := (reduces.pairs j hj).trans (reduces'.pairs j hj).symm
  constructor
  · apply reduces.answer_shaped.ext reduces'.answer_shaped
    intro j hj
    exact neg_injective (congrArg Prod.snd (same j hj))
  · apply reduces.residues_shaped.ext reduces'.residues_shaped
    intro j hj
    exact congrArg Prod.fst (same j hj)

end RowMatrix

namespace RowMatrix

variable {a l : RowMatrix e}

/-- The basis that a split answers with is read back from its bytes unchanged, and replaying it
has the answer and leaves the rows that the elimination of the matrix itself does. -/
theorem replay_agrees [Storage.Memory] (wf : a.WellFormed) (wf' : l.WellFormed)
    (primes : l.prime = a.prime) (widths : l.columns = a.columns) {wanted : Wanted}
    (asked : wanted.basis = true) (pacer : Pacer) :
    Ends (a.split wanted pacer) (¬ Fits e a.rows a.rows) (pacer.stopRow a.rows ≠ none)
      fun _ d => ∃ b, d.basis = some b ∧
        (∀ rest, EncodedBasis.decode ((⟨e, b⟩ : EncodedBasis).encode ++ rest) =
          pure (⟨e, b⟩, rest)) ∧
        ∀ cachedPacer, Ends (b.preimages l cachedPacer) (¬ Fits e l.rows a.rows)
          (cachedPacer.stopRow b.rank ≠ none)
          fun cached answer => ∀ livePacer, Ends (a.preimages l livePacer)
            (¬ (Fits e l.rows a.rows ∧ Fits e a.rows a.rows)) (livePacer.stopRow a.rows ≠ none)
            fun live answer' => answer = answer' ∧ cached.1 = live.residues := by
  have shaped : l.Shaped a.prime l.rows a.columns := ⟨wf', primes, rfl, widths⟩
  refine (split_ends wf wanted pacer).imp (fun refused => refused.2) id ?_
  intro _ d splits
  obtain ⟨b, present⟩ := Option.isSome_iff_exists.mp (splits.basis_isSome.trans asked)
  have holds := splits.basis b present
  have basis_shaped := holds.basis_shaped splits.image
  refine ⟨b, present, EncodedBasis.reads_decode (b := ⟨e, b⟩) basis_shaped, ?_⟩
  intro cachedPacer
  rw [PivotBasis.rank, basis_shaped.length]
  refine (PivotBasis.preimages_ends basis_shaped shaped cachedPacer).imp id id ?_
  intro cached answer replays livePacer
  refine (preimages_ends wf shaped livePacer).imp id id ?_
  rintro live answer' ⟨-, reduces⟩
  exact (holds.reduces splits.image replays).unique reduces

theorem replay_agrees_of_sample :
    let a := tabulate .packed .two 3 5 fun i j => i * j + i
    let l := tabulate .packed .two 2 5 fun i j => i + j
    Ends (a.split .everything .standard) (¬ Fits .packed a.rows a.rows)
      (Pacer.standard.stopRow a.rows ≠ none)
      fun _ d => ∃ b, d.basis = some b ∧
        (∀ rest, EncodedBasis.decode ((⟨.packed, b⟩ : EncodedBasis).encode ++ rest) =
          pure (⟨.packed, b⟩, rest)) ∧
        ∀ cachedPacer, Ends (b.preimages l cachedPacer) (¬ Fits .packed l.rows a.rows)
          (cachedPacer.stopRow b.rank ≠ none)
          fun cached answer => ∀ livePacer, Ends (a.preimages l livePacer)
            (¬ (Fits .packed l.rows a.rows ∧ Fits .packed a.rows a.rows))
            (livePacer.stopRow a.rows ≠ none)
            fun live answer' => answer = answer' ∧ cached.1 = live.residues := by
  intro a l
  have ha : a.Shaped .two 3 5 :=
    tabulate_shaped (by decide) (by decide) (by decide) (by decide) _
  have hl : l.Shaped .two 2 5 :=
    tabulate_shaped (by decide) (by decide) (by decide) (by decide) _
  exact replay_agrees ha.wellFormed hl.wellFormed (hl.prime.trans ha.prime.symm)
    (hl.columns.trans ha.columns.symm) rfl .standard

end RowMatrix

end RowReduction
