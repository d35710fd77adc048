import Mathlib
import RowReduction.Proofs.Conversion
import RowReduction.Proofs.Replay
import RowReduction.Proofs.ToolSteps

/-!
The two ways of the tool to preimages. A split can leave its basis in a file, and the file stands
for the matrix later on: whatever encodings and sample shifts the runs choose, the rows that are
reduced by a saved basis are shown with the same preimages and residues as those that are reduced
by the matrix. This holds wherever the files are kept, if a stored file is found as it was stored.
-/
namespace RowReduction.Tool

open RowMatrix FileSystem

variable {M : Type → Type} [Monad M] [FileStore M] {σ : Type} [FileSystem M σ]

section Subcommands

variable [Storage.Memory] {e : Encoding} {x y : RowMatrix e} {settings : Settings} {pacer : Pacer}
  {d : σ} {input path : String} {text : List UInt8} {table other : RowTable}

theorem listed_of_le {r k : Nat} (listed : r * RowTable.rowBytes < Storage.allocationLimit)
    (fewer : k ≤ r) : k * RowTable.rowBytes < Storage.allocationLimit :=
  Nat.lt_of_le_of_lt (Nat.mul_le_mul_right _ fewer) listed

/-- A split shows no matrix that has more rows than the one it is given. -/
theorem rows_le_of_splitsInto {wanted : Wanted} {left : RowMatrix e}
    {outputs : Splitting (RowMatrix e)} (splits : x.SplitsInto wanted left outputs) :
    ∀ m ∈ (⟨e, left⟩ : EncodedMatrix) ::
      (outputs.inEncoding.kernel.toList ++ outputs.inEncoding.dual.toList), m.rows ≤ x.rows := by
  have total := x.length_pivotsOf_add
  intro m member
  simp only [Splitting.inEncoding, List.mem_cons, List.mem_append, Option.mem_toList,
    Option.map_eq_some_iff] at member
  obtain rfl | ⟨kernel, present, rfl⟩ | ⟨dual, present, rfl⟩ := member
  · have rows := splits.image.shaped.rows
    exact rows.trans_le (by omega)
  · have rows := (splits.kernel kernel present).shaped.rows
    exact rows.trans_le (by omega)
  · have rows := (splits.dual dual present).shaped.rows
    exact rows.trans_le (by omega)

theorem split_saves [LawfulMonad M] {dual : Bool} (wf : x.WellFormed)
    (square : Fits e x.rows x.rows)
    (listed : x.rows * RowTable.rowBytes < Storage.allocationLimit)
    (found : Holds M d input text)
    (read : Json.readText RowTable.reader text = .ok table)
    (built : table.toEncoded (settings.encodingOver table.prime) = pure ⟨e, x⟩)
    (paced : settings.pacer = .ok pacer) (goesOn : ∀ total, pacer.stopRow total = none)
    (writable : ∀ contents, ∃ d', Stores M d path contents d') :
    ∃ left basis shown d', x.HoldsImage left ∧ x.HoldsBasis left basis ∧
      Stores M d path (EncodedBasis.encode ⟨e, basis⟩) d' ∧
      Yields (split settings input dual (some path) : Step M String) d shown d' := by
  have asked : (⟨true, dual, true⟩ : Wanted).basis = true := rfl
  obtain ⟨left, outputs, call, splits⟩ := split_ok wf (fun _ => square) (goesOn x.rows)
  obtain ⟨basis, present⟩ := Option.isSome_iff_exists.mp (splits.basis_isSome.trans asked)
  have encoded := EncodedMatrix.split_of_row (m := ⟨e, x⟩) call
  have answered : outputs.inEncoding.basis = some ⟨e, basis⟩ := by
    rw [Splitting.inEncoding, present]
    rfl
  obtain ⟨d', stored⟩ := writable (EncodedBasis.encode ⟨e, basis⟩)
  refine ⟨left, basis, _, d', splits.image, splits.basis basis present, stored,
    split_yields_saved found read built paced encoded answered stored ?_⟩
  intro m member
  exact listed_of_le listed (rows_le_of_splitsInto splits m member)

variable {r : Nat}

theorem preimages_by_saved [LawfulMonad M] {f : Encoding} {left : RowMatrix e}
    {basis : PivotBasis (RowMatrix e)} {matrix : Option RowTable} {rows : RowMatrix f}
    (holds : x.HoldsBasis left basis) (image : x.HoldsImage left)
    (hy : y.Shaped x.prime r x.columns) (fits : Fits e r x.rows)
    (listed : r * RowTable.rowBytes < Storage.allocationLimit)
    (found : Holds M d input text)
    (read : Json.readText PreimageInput.reader text = .ok ⟨matrix, table⟩)
    (prime : x.prime = table.prime) (width : rows.columns = x.columns)
    (built : table.toEncoded (settings.encodingOver table.prime) = pure ⟨f, rows⟩)
    (converted : (⟨f, rows⟩ : EncodedMatrix).inEncoding e = pure y)
    (paced : settings.pacer = .ok pacer) (goesOn : ∀ total, pacer.stopRow total = none)
    (saved : Holds M d path (EncodedBasis.encode ⟨e, basis⟩)) :
    ∃ residues answer, x.Reduces y residues answer r ∧
      Yields (preimages settings input (some path) : Step M String) d
        (preimagesText ⟨e, answer⟩ ⟨e, residues⟩) d := by
  have shaped := holds.basis_shaped image
  have decoded : EncodedBasis.decode (EncodedBasis.encode ⟨e, basis⟩) = pure (⟨e, basis⟩, []) := by
    have read_back := EncodedBasis.reads_decode (b := ⟨e, basis⟩) shaped []
    rwa [List.append_nil] at read_back
  obtain ⟨s, call, replays⟩ := PivotBasis.preimages_ok shaped hy fits (goesOn _)
  have reduces := holds.reduces image replays
  have widths : (⟨e, basis⟩ : EncodedBasis).columns = (⟨f, rows⟩ : EncodedMatrix).columns :=
    shaped.image.columns.trans width.symm
  have encoded : (⟨e, basis⟩ : EncodedBasis).preimages ⟨f, rows⟩ pacer =
      .ok ⟨(⟨e, s.residues⟩, pacer.afterRows x.pivotsOf.length), .ok ⟨e, s.subtracted⟩⟩ :=
    EncodedBasis.preimages_of_converted widths converted call
  refine ⟨s.residues, s.subtracted, reduces, ?_⟩
  refine preimages_yields_of_saved found read built paced saved decoded
    (shaped.image.prime.trans prime) encoded ?_ ?_
  · exact listed_of_le listed reduces.answer_shaped.rows.le
  · exact listed_of_le listed reduces.residues_shaped.rows.le

theorem preimages_by_matrix [LawfulMonad M] (wf : x.WellFormed) (hy : y.Shaped x.prime r x.columns)
    (fits : Fits e r x.rows) (square : Fits e x.rows x.rows)
    (listed : r * RowTable.rowBytes < Storage.allocationLimit)
    (found : Holds M d input text)
    (read : Json.readText PreimageInput.reader text = .ok ⟨some other, table⟩)
    (primes : other.prime = table.prime)
    (built : table.toEncoded (settings.encodingOver table.prime) = pure ⟨e, y⟩)
    (matrix_built : other.toEncoded (settings.encodingOver other.prime) = pure ⟨e, x⟩)
    (paced : settings.pacer = .ok pacer) (goesOn : ∀ total, pacer.stopRow total = none) :
    ∃ residues answer, x.Reduces y residues answer r ∧
      Yields (preimages settings input none : Step M String) d
        (preimagesText ⟨e, answer⟩ ⟨e, residues⟩) d := by
  obtain ⟨left, residues, answer, call, -, reduces⟩ :=
    preimages_ok wf hy fits square (goesOn x.rows)
  have stored : (⟨e, y⟩ : EncodedMatrix).inEncoding e = pure y := dif_pos rfl
  have widths : (⟨e, x⟩ : EncodedMatrix).columns = (⟨e, y⟩ : EncodedMatrix).columns :=
    hy.columns.symm
  have encoded : (⟨e, x⟩ : EncodedMatrix).preimages ⟨e, y⟩ pacer =
      .ok ⟨⟨⟨e, left⟩, ⟨e, residues⟩, pacer.afterRows x.rows⟩, .ok ⟨e, answer⟩⟩ :=
    EncodedMatrix.preimages_of_converted widths stored call
  have answer_listed := listed_of_le listed reduces.answer_shaped.rows.le
  have residues_listed := listed_of_le listed reduces.residues_shaped.rows.le
  exact ⟨residues, answer, reduces, preimages_yields_of_matrix found read built paced primes
    matrix_built encoded answer_listed residues_listed⟩

/-- The same rows are shown with the same preimages and residues in all encodings. -/
theorem preimagesText_congr {f : Encoding} {x' y' residues' answer' : RowMatrix f}
    {residues answer : RowMatrix e} (matrices : x.Same x') (rows : y.Same y')
    (hy : y.Shaped x.prime r x.columns) (reduces : x.Reduces y residues answer r)
    (reduces' : x'.Reduces y' residues' answer' r) :
    preimagesText ⟨f, answer'⟩ ⟨f, residues'⟩ = preimagesText ⟨e, answer⟩ ⟨e, residues⟩ := by
  have before := reducesBefore_rows.mpr reduces
  have before' := reducesBefore_rows.mpr reduces'
  rw [matrices.rows] at before'
  obtain ⟨same_residues, same_answers⟩ := matrices.reducesBefore rows hy before before'
  simp only [preimagesText, same_residues.table_eq, same_answers.table_eq]

end Subcommands

/-- What the tool is started with. -/
structure Invocation where
  environment : String → Option (List UInt8)
  arguments : List String

namespace Invocation

/-- The tool is run with the files in the state `d`, shows a text and leaves `d'`. -/
def Shows [Storage.Memory] (v : Invocation) (M : Type → Type) [Monad M] [FileStore M]
    [FileSystem M σ] (d : σ) (text : String) (d' : σ) : Prop :=
  Runs (run v.environment v.arguments : M Ending) d (.shown text) d'

/-- A run in a directory. -/
def runIn [Storage.Memory] (v : Invocation) (d : Directory) : Ending × Directory :=
  (run v.environment v.arguments : StateM Directory Ending).run d

theorem shows_iff_runIn [Storage.Memory] {v : Invocation} {d d' : Directory} {text : String} :
    v.Shows (StateM Directory) d text d' ↔ v.runIn d = (.shown text, d') := Iff.rfl

/-- The arguments are those of a command, and choose the settings together with the environment. -/
def Asks (v : Invocation) (command : Command) (settings : Settings) : Prop :=
  ∃ request, Arguments.parse v.arguments = some request ∧ request.command = command ∧
    requestSettings v.environment request = settings

variable {v : Invocation} {command : Command} {settings : Settings}

theorem Asks.pacer (asks : v.Asks command settings) :
    ∃ pacer, settings.pacer = .ok pacer ∧ ∀ total, pacer.stopRow total = none := by
  obtain ⟨request, -, -, rfl⟩ := asks
  exact requestSettings_pacer v.environment request

theorem Asks.shows [Storage.Memory] (asks : v.Asks command settings) {text : String} {d d' : σ}
    (yields : Yields (execute settings command : Step M String) d text d') :
    v.Shows M d text d' := by
  obtain ⟨request, parsed, rfl, rfl⟩ := asks
  exact run_shown parsed yields

end Invocation

section

variable [Storage.Memory]

/-- Storage for a matrix, rows that are reduced by it and all that the runs build of them. The
encodings are those of the run that saves the basis, of the one that replays it and of the one that
does without it. -/
structure Enough (a l : RowTable) (saving replaying direct : Encoding) : Prop where
  matrix : Fits saving a.rows.length a.columns
  combinations : Fits saving a.rows.length a.rows.length
  rows : Fits replaying l.rows.length l.columns
  converted : Fits saving l.rows.length l.columns
  answer : Fits saving l.rows.length a.rows.length
  direct_matrix : Fits direct a.rows.length a.columns
  direct_combinations : Fits direct a.rows.length a.rows.length
  direct_rows : Fits direct l.rows.length l.columns
  direct_answer : Fits direct l.rows.length a.rows.length
  matrix_listed : a.rows.length * RowTable.rowBytes < Storage.allocationLimit
  rows_listed : l.rows.length * RowTable.rowBytes < Storage.allocationLimit

/-- Rows over the prime and with the width of a matrix, both stored in one encoding. -/
theorem rows_shaped {e : Encoding} {a l : RowTable} (ha : a.Regular) (hl : l.Regular)
    (supported : e.canStore a.prime = true) (fits : Fits e a.rows.length a.columns)
    (fits' : Fits e l.rows.length l.columns) (primes : l.prime = a.prime)
    (width : l.columns = a.columns) :
    (l.matrix e).Shaped (a.matrix e).prime l.rows.length (a.matrix e).columns := by
  have hx := ha.matrix_shaped supported fits
  have hy := hl.matrix_shaped (primes ▸ supported) fits'
  exact ⟨hy.wellFormed, (hy.prime.trans primes).trans hx.prime.symm, hy.rows,
    (hy.columns.trans width).trans hx.columns.symm⟩

/-- Reducing rows by a basis that was saved shows the same as reducing them by the matrix that the
basis was computed from, whatever settings each run was given and wherever the files are kept. -/
theorem saved_basis_agrees [LawfulMonad M] {saving replaying direct : Invocation}
    {s s' s'' : Settings} {input input' input'' path : String} {dual : Bool}
    {text text' text'' : List UInt8} {a l : RowTable} {unused : Option RowTable} {d : σ}
    (asks : saving.Asks (.split input dual (some path)) s)
    (asks' : replaying.Asks (.preimages input' (some path)) s')
    (asks'' : direct.Asks (.preimages input'' none) s'')
    (read : Json.readText RowTable.reader text = .ok a)
    (read' : Json.readText PreimageInput.reader text' = .ok ⟨unused, l⟩)
    (read'' : Json.readText PreimageInput.reader text'' = .ok ⟨some a, l⟩)
    (primes : l.prime = a.prime) (width : l.columns = a.columns)
    (matrix_widths : ∀ row ∈ a.rows, row.length = a.columns)
    (rows_widths : ∀ row ∈ l.rows, row.length = l.columns)
    (enough : Enough a l (s.encodingOver a.prime) (s'.encodingOver a.prime)
      (s''.encodingOver a.prime))
    (writable : ∀ contents, ∃ d', Stores M d path contents d') (found : Holds M d input text) :
    ∃ shown basis left, saving.Shows M d shown left ∧ Stores M d path basis left ∧
      Holds M left path basis ∧
      ∀ d' d'' : σ, Holds M d' path basis → Holds M d' input' text' → Holds M d'' input'' text'' →
        ∃ shown', replaying.Shows M d' shown' d' ∧ direct.Shows M d'' shown' d'' := by
  have ha : a.Regular :=
    ⟨matrix_widths, RowTable.ensures_reader.readText read, enough.matrix_listed⟩
  have hl : l.Regular :=
    ⟨rows_widths, (PreimageInput.ensures_reader.readText read').1, enough.rows_listed⟩
  obtain ⟨pacer, paced, goesOn⟩ := asks.pacer
  obtain ⟨pacer', paced', goesOn'⟩ := asks'.pacer
  obtain ⟨pacer'', paced'', goesOn''⟩ := asks''.pacer
  obtain ⟨p, n, rows⟩ := l
  obtain rfl : p = a.prime := primes
  obtain rfl : n = a.columns := width
  -- The second run stores the rows in the encoding of the saved basis, so only the encodings of the
  -- first run and of the third one are left to be compared.
  have supported := canStore_encodingOver s a.prime
  have supported' := canStore_encodingOver s' a.prime
  have supported'' := canStore_encodingOver s'' a.prime
  have hx := ha.matrix_shaped supported enough.matrix
  have hx'' := ha.matrix_shaped supported'' enough.direct_matrix
  have hy := rows_shaped ha hl supported enough.matrix enough.converted rfl rfl
  have hy'' := rows_shaped ha hl supported'' enough.direct_matrix enough.direct_rows rfl rfl
  obtain ⟨image, basis, shown, left, holds_image, holds, stored, saved⟩ := split_saves hx.wellFormed
    (by rw [hx.rows]; exact enough.combinations) (by rw [hx.rows]; exact enough.matrix_listed)
    found read (ha.toEncoded_ok supported enough.matrix) paced goesOn writable
  refine ⟨shown, _, left, asks.shows saved, stored, stored.holds, ?_⟩
  intro d' d'' kept found' found''
  obtain ⟨residues, answer, reduces, replayed⟩ := preimages_by_saved holds holds_image hy
    (by rw [hx.rows]; exact enough.answer) enough.rows_listed found' read' hx.prime
    ((hl.matrix_shaped supported' enough.rows).columns.trans hx.columns.symm)
    (hl.toEncoded_ok supported' enough.rows)
    (hl.inEncoding_matrix supported' supported enough.rows enough.converted) paced' goesOn' kept
  obtain ⟨residues'', answer'', reduces'', computed⟩ := preimages_by_matrix hx''.wellFormed hy''
    (by rw [hx''.rows]; exact enough.direct_answer)
    (by rw [hx''.rows]; exact enough.direct_combinations) enough.rows_listed found'' read'' rfl
    (hl.toEncoded_ok supported'' enough.direct_rows)
    (ha.toEncoded_ok supported'' enough.direct_matrix) paced'' goesOn''
  have same := preimagesText_congr
    (ha.matrix_same supported supported'' enough.matrix enough.direct_matrix)
    (hl.matrix_same supported supported'' enough.converted enough.direct_rows) hy reduces reduces''
  refine ⟨_, asks'.shows replayed, ?_⟩
  rw [← same]
  exact asks''.shows computed

end

/-- Three runs in one directory, each in an encoding of its own: the first one takes the encoding
that suits the prime, the second one is given an encoding as an argument and the third one in the
environment. The third row of the matrix is the sum of the others. -/
theorem saved_basis_agrees_of_sample :
    let saving : Invocation :=
      ⟨fun _ => none, ["orthonormalize", "--input", "a", "--basis", "b", "--dual"]⟩
    let replaying : Invocation :=
      ⟨fun _ => none, ["--backend", "generic", "lift", "--basis=b", "--input", "l"]⟩
    let direct : Invocation :=
      ⟨fun name => if name = Settings.encodingVariable then some (Json.ascii "simd") else none,
        ["lift", "--input", "c", "--sample-shift", "0"]⟩
    let d : Directory :=
      ⟨[("a", Json.ascii "[2,3,[[1,0,3],[1,1,4],[0,1,5]]]"),
        ("l", Json.ascii "[null,[2,3,[[1,1,1],[0,5,0]]]]"),
        ("c", Json.ascii "[[2,3,[[1,0,3],[1,1,4],[0,1,5]]],[2,3,[[1,1,1],[0,5,0]]]]")]⟩
    ∃ shown left shown', saving.runIn d = (.shown shown, left) ∧
      replaying.runIn left = (.shown shown', left) ∧ direct.runIn left = (.shown shown', left) := by
  intro saving replaying direct d
  let a : RowTable := ⟨.two, 3, [[1, 0, 3], [1, 1, 4], [0, 1, 5]]⟩
  let l : RowTable := ⟨.two, 3, [[1, 1, 1], [0, 5, 0]]⟩
  have asks : saving.Asks (.split "a" true (some "b")) Settings.standard :=
    ⟨⟨_, none, none⟩, by decide +kernel, rfl, by decide +kernel⟩
  have asks' : replaying.Asks (.preimages "l" (some "b")) ⟨6, some .generic⟩ :=
    ⟨⟨_, some .generic, none⟩, by decide +kernel, rfl, by decide +kernel⟩
  have asks'' : direct.Asks (.preimages "c" none) ⟨0, some .batched⟩ :=
    ⟨⟨_, none, some 0⟩, by decide +kernel, rfl, by decide +kernel⟩
  have read : Json.readText RowTable.reader (Json.ascii "[2,3,[[1,0,3],[1,1,4],[0,1,5]]]") =
      .ok a := by decide +kernel
  have read' : Json.readText PreimageInput.reader (Json.ascii "[null,[2,3,[[1,1,1],[0,5,0]]]]") =
      .ok ⟨none, l⟩ := by decide +kernel
  have read'' : Json.readText PreimageInput.reader
      (Json.ascii "[[2,3,[[1,0,3],[1,1,4],[0,1,5]]],[2,3,[[1,1,1],[0,5,0]]]]") =
      .ok ⟨some a, l⟩ := by decide +kernel
  have enough : Enough a l .packed .generic .batched := by constructor <;> decide
  have name_a : Directory.fileName? "a" = some "a" := by cbv
  have name_b : Directory.fileName? "b" = some "b" := by cbv
  have name_l : Directory.fileName? "l" = some "l" := by cbv
  have name_c : Directory.fileName? "c" = some "c" := by cbv
  have found : d.look "a" = .file (Json.ascii "[2,3,[[1,0,3],[1,1,4],[0,1,5]]]") := by
    rw [Directory.look, name_a]
    rfl
  have writable (contents : List UInt8) : ∃ d', Stores (StateM Directory) d "b" contents d' :=
    ⟨_, Directory.stores_of_named name_b⟩
  obtain ⟨shown, basis, left, saved, stored, kept, agree⟩ := saved_basis_agrees asks asks' asks''
    read read' read'' rfl rfl (by decide) (by decide) enough writable
    (Directory.holds_iff.mpr found)
  obtain rfl : (d.store "b" basis).2 = left := congrArg Prod.snd (Directory.stores_iff.mp stored)
  have found' : (d.store "b" basis).2.look "l" =
      .file (Json.ascii "[null,[2,3,[[1,1,1],[0,5,0]]]]") := by
    rw [Directory.look, Directory.store, name_l, name_b]
    rfl
  have found'' : (d.store "b" basis).2.look "c" =
      .file (Json.ascii "[[2,3,[[1,0,3],[1,1,4],[0,1,5]]],[2,3,[[1,1,1],[0,5,0]]]]") := by
    rw [Directory.look, Directory.store, name_c, name_b]
    rfl
  obtain ⟨shown', replayed, computed⟩ :=
    agree _ _ kept (Directory.holds_iff.mpr found') (Directory.holds_iff.mpr found'')
  exact ⟨shown, _, shown', Invocation.shows_iff_runIn.mp saved,
    Invocation.shows_iff_runIn.mp replayed, Invocation.shows_iff_runIn.mp computed⟩

end RowReduction.Tool
