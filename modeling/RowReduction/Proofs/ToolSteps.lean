import Mathlib
import RowReduction.Proofs.Binary
import RowReduction.Proofs.JsonTables
import RowReduction.Proofs.Walk

/-!
Runs of the tool that come to an end with a text to show, over any store of files in which a stored
file is found as it was stored. Every step of a subcommand is described once, by what it yields and
the state in which it leaves the files, and a subcommand by its steps. Nothing but saving a basis
changes the files.
-/
namespace RowReduction.Tool

/-- A store of files with the states that it can be in. `Runs x d a d'` tells that the action `x`
takes the state `d` to `d'` and yields `a`. A file is read back as it was written. -/
class FileSystem (M : Type → Type) [Monad M] [FileStore M] (σ : outParam Type) where
  Runs {α : Type} : M α → σ → α → σ → Prop
  runs_pure {α : Type} (a : α) (d : σ) : Runs (pure a) d a d
  runs_bind {α β : Type} {x : M α} {next : α → M β} {d d' d'' : σ} {a : α} {b : β} :
    Runs x d a d' → Runs (next a) d' b d'' → Runs (x >>= next) d b d''
  runs_look {path : String} {contents : List UInt8} {d d' : σ} :
    Runs (FileStore.store path contents) d true d' →
      Runs (FileStore.look path) d' (.file contents) d'

open FileSystem

variable {M : Type → Type} [Monad M] [FileStore M] {σ α β : Type} [FileSystem M σ] {d d' d'' : σ}
  {a : α} {b : β} {path : String} {contents : List UInt8}

/-- Looking at the file that the path leads to shows its contents. -/
def Holds (M : Type → Type) [Monad M] [FileStore M] [FileSystem M σ] (d : σ) (path : String)
    (contents : List UInt8) : Prop :=
  Runs (FileStore.look path : M Found) d (.file contents) d

/-- Storing the contents succeeds and leaves `d'`. -/
def Stores (M : Type → Type) [Monad M] [FileStore M] [FileSystem M σ] (d : σ) (path : String)
    (contents : List UInt8) (d' : σ) : Prop :=
  Runs (FileStore.store path contents : M Bool) d true d'

theorem Stores.holds (stored : Stores M d path contents d') : Holds M d' path contents :=
  runs_look stored

/-- A step that starts with the files in the state `d` succeeds with `a` and leaves `d'`. -/
def Yields (step : Step M α) (d : σ) (a : α) (d' : σ) : Prop :=
  Runs step.run d (Except.ok a) d'

theorem yields_pure (a : α) (d : σ) : Yields (pure a : Step M α) d a d :=
  runs_pure (Except.ok a) d

theorem Yields.bind {step : Step M α} {next : α → Step M β} (first : Yields step d a d')
    (later : Yields (next a) d' b d'') : Yields (step >>= next) d b d'' := by
  rw [Yields, ExceptT.run_bind]
  exact runs_bind first later

theorem yields_lift [LawfulMonad M] {x : M α} (runs : Runs x d a d') :
    Yields (liftM x : Step M α) d a d' := by
  have mapped : (liftM x : Step M α).run = x >>= fun a => pure (.ok a) :=
    (bind_pure_comp _ x).symm
  rw [Yields, mapped]
  exact runs_bind runs (runs_pure _ d')

namespace Directory

variable {d d' : Directory}

theorem look_of_store (stored : d.store path contents = (true, d')) :
    d'.look path = .file contents := by
  unfold store at stored
  split at stored
  · rename_i name named
    cases stored
    rw [look, named]
    simp
  · cases stored

instance : FileSystem (StateM Directory) Directory where
  Runs x d a d' := x.run d = (a, d')
  runs_pure a d := rfl
  runs_bind first later := by
    rw [StateT.run_bind, first]
    exact later
  runs_look stored := congrArg (·, _) (look_of_store stored)

theorem holds_iff : Holds (StateM Directory) d path contents ↔ d.look path = .file contents :=
  ⟨congrArg Prod.fst, congrArg (·, d)⟩

theorem stores_iff : Stores (StateM Directory) d path contents d' ↔
    d.store path contents = (true, d') := Iff.rfl

/-- A path that leads to a name of the directory can be written to. -/
theorem stores_of_named {name : String} (named : fileName? path = some name) :
    Stores (StateM Directory) d path contents (d.store path contents).2 := by
  rw [stores_iff, store, named]

end Directory

section Steps

theorem checked_yields {result : Checked α} (ok : result = .ok a) (d : σ) :
    Yields (checked result : Step M α) d a d := by
  subst ok
  exact yields_pure a d

theorem answered_yields {ρ : Type} {result : Checked (Outcome ρ ReductionError α)} {state : ρ}
    (call : result = .ok ⟨state, .ok a⟩) (d : σ) :
    Yields (answered result : Step M (ρ × α)) d (state, a) d :=
  (checked_yields call d).bind (yields_pure _ d)

theorem build_yields [Storage.Memory] {settings : Settings} {rows : RowTable} {m : EncodedMatrix}
    (built : rows.toEncoded (settings.encodingOver rows.prime) = pure m) (d : σ) :
    Yields (build settings rows : Step M EncodedMatrix) d m d :=
  (checked_yields built d).bind (yields_pure m d)

variable [LawfulMonad M]

theorem openFile_yields (found : Holds M d path contents) :
    Yields (openFile path : Step M _) d (some contents) d :=
  (yields_lift found).bind (yields_pure _ d)

theorem readJson_yields {reader : Json.Reader α} (found : Holds M d path contents)
    (read : Json.readText reader contents = .ok a) :
    Yields (readJson reader path : Step M α) d a d := by
  refine (openFile_yields found).bind ?_
  rw [Option.map_some, read]
  exact yields_pure a d

theorem readBasis_yields [Storage.Memory] {basis : EncodedBasis} {rest : List UInt8}
    (found : Holds M d path contents)
    (decoded : EncodedBasis.decode contents = pure (basis, rest)) :
    Yields (readBasis path : Step M _) d basis d :=
  (openFile_yields found).bind ((checked_yields decoded d).bind (yields_pure basis d))

theorem saveBasis_yields {basis : EncodedBasis} (stored : Stores M d path basis.encode d') :
    Yields (saveBasis path basis : Step M Unit) d () d' :=
  (yields_lift stored).bind (yields_pure () d')

end Steps

section Commands

variable {settings : Settings} {pacer after : Pacer} {input : String} {text : List UInt8}
  {table other : RowTable} {matrix rows image result residues : EncodedMatrix}

/-- The text that is shown of preimages and residues. -/
def preimagesText (result residues : EncodedMatrix) : String :=
  Json.objectText
    [("result", result.matrix.table.toJson), ("residue", residues.matrix.table.toJson)]

theorem preimagesText_yields [Storage.Memory]
    (result_listed : result.rows * RowTable.rowBytes < Storage.allocationLimit)
    (residues_listed : residues.rows * RowTable.rowBytes < Storage.allocationLimit) (d : σ) :
    Yields (do
      let result ← checked (matrixJson result)
      let residues ← checked (matrixJson residues)
      return Json.objectText [("result", result), ("residue", residues)] : Step M String) d
      (preimagesText result residues) d :=
  (checked_yields (matrixJson_ok result_listed) d).bind
    ((checked_yields (matrixJson_ok residues_listed) d).bind (yields_pure _ d))

variable [LawfulMonad M]

theorem preimages_yields_of_saved [Storage.Memory] {rest : List UInt8} {basis : EncodedBasis}
    {matrix : Option RowTable} (found : Holds M d input text)
    (read : Json.readText PreimageInput.reader text = .ok ⟨matrix, table⟩)
    (built : table.toEncoded (settings.encodingOver table.prime) = pure rows)
    (paced : settings.pacer = .ok pacer) (saved : Holds M d path contents)
    (decoded : EncodedBasis.decode contents = pure (basis, rest))
    (primes : basis.prime = table.prime)
    (call : basis.preimages rows pacer = .ok ⟨(residues, after), .ok result⟩)
    (result_listed : result.rows * RowTable.rowBytes < Storage.allocationLimit)
    (residues_listed : residues.rows * RowTable.rowBytes < Storage.allocationLimit) :
    Yields (preimages settings input (some path) : Step M String) d
      (preimagesText result residues) d := by
  refine (readJson_yields found read).bind ?_
  refine (build_yields built d).bind ((checked_yields paced d).bind ?_)
  refine (readBasis_yields saved decoded).bind ?_
  rw [if_neg (not_not.mpr primes)]
  refine (answered_yields call d).bind ((yields_pure (result, residues) d).bind ?_)
  exact preimagesText_yields result_listed residues_listed d

theorem preimages_yields_of_matrix [Storage.Memory] {left : EncodedMatrix}
    (found : Holds M d input text)
    (read : Json.readText PreimageInput.reader text = .ok ⟨some other, table⟩)
    (built : table.toEncoded (settings.encodingOver table.prime) = pure rows)
    (paced : settings.pacer = .ok pacer) (primes : other.prime = table.prime)
    (matrix_built : other.toEncoded (settings.encodingOver other.prime) = pure matrix)
    (call : matrix.preimages rows pacer = .ok ⟨⟨left, residues, after⟩, .ok result⟩)
    (result_listed : result.rows * RowTable.rowBytes < Storage.allocationLimit)
    (residues_listed : residues.rows * RowTable.rowBytes < Storage.allocationLimit) :
    Yields (preimages settings input none : Step M String) d
      (preimagesText result residues) d := by
  refine (readJson_yields found read).bind ?_
  refine (build_yields built d).bind ((checked_yields paced d).bind ?_)
  dsimp only
  rw [if_neg (not_not.mpr primes)]
  refine (build_yields matrix_built d).bind ?_
  refine (answered_yields call d).bind ((yields_pure (result, residues) d).bind ?_)
  exact preimagesText_yields result_listed residues_listed d

/-- The outputs of a split that are shown, with their names. -/
def shownMatrices (image : EncodedMatrix) (outputs : EncodedSplitting) :
    List (String × EncodedMatrix) :=
  [("image", some image), ("kernel", outputs.kernel), ("dual", outputs.dual)].filterMap
    fun (name, matrix) => matrix.map (name, ·)

theorem mem_shownMatrices {outputs : EncodedSplitting} {pair : String × EncodedMatrix}
    (member : pair ∈ shownMatrices image outputs) :
    pair.2 ∈ image :: (outputs.kernel.toList ++ outputs.dual.toList) := by
  simp only [shownMatrices, List.mem_filterMap, Option.map_eq_some_iff] at member
  obtain ⟨⟨name, matrix⟩, known, m, present, rfl⟩ := member
  simp only [List.mem_cons, Prod.mk.injEq, List.not_mem_nil, or_false] at known
  simp only [List.mem_cons, List.mem_append, Option.mem_toList]
  obtain ⟨-, rfl⟩ | ⟨-, rfl⟩ | ⟨-, rfl⟩ := known
  · exact .inl (Option.some.inj present).symm
  · exact .inr (.inl present)
  · exact .inr (.inr present)

theorem matricesJson_ok [Storage.Memory] {named : List (String × EncodedMatrix)}
    (listed : ∀ pair ∈ named, pair.2.rows * RowTable.rowBytes < Storage.allocationLimit) :
    named.mapM (fun (name, matrix) => return (name, ← matrixJson matrix)) =
      Except.ok (named.map fun (name, matrix) => (name, matrix.matrix.table.toJson)) := by
  induction named with
  | nil => rfl
  | cons pair rest ih =>
    obtain ⟨name, matrix⟩ := pair
    rw [List.mapM_cons, ih fun other member => listed other (List.mem_cons_of_mem _ member)]
    dsimp only
    rw [matrixJson_ok (listed (name, matrix) List.mem_cons_self)]
    rfl

/-- The text that is shown of a split. -/
def splitText (image : EncodedMatrix) (outputs : EncodedSplitting) : String :=
  Json.objectText (("rank", toString outputs.rank) ::
    (shownMatrices image outputs).map fun (name, matrix) => (name, matrix.matrix.table.toJson))

/-- A split shows its outputs, and the basis is left in its file. -/
theorem split_yields_saved [Storage.Memory] {dual : Bool} {basis : EncodedBasis}
    {outputs : EncodedSplitting} (found : Holds M d input text)
    (read : Json.readText RowTable.reader text = .ok table)
    (built : table.toEncoded (settings.encodingOver table.prime) = pure matrix)
    (paced : settings.pacer = .ok pacer)
    (call : matrix.split ⟨true, dual, true⟩ pacer = .ok ⟨(image, after), .ok outputs⟩)
    (present : outputs.basis = some basis) (stored : Stores M d path basis.encode d')
    (listed : ∀ m ∈ image :: (outputs.kernel.toList ++ outputs.dual.toList),
      m.rows * RowTable.rowBytes < Storage.allocationLimit) :
    Yields (split settings input dual (some path) : Step M String) d (splitText image outputs)
      d' := by
  have shown_listed : ∀ pair ∈ shownMatrices image outputs,
      pair.2.rows * RowTable.rowBytes < Storage.allocationLimit :=
    fun pair member => listed pair.2 (mem_shownMatrices member)
  refine (readJson_yields found read).bind ?_
  refine (build_yields built d).bind ((checked_yields paced d).bind ?_)
  refine (answered_yields call d).bind ?_
  dsimp only
  rw [present]
  refine (saveBasis_yields stored).bind ?_
  exact (checked_yields (matricesJson_ok shown_listed) d').bind (yields_pure _ d')

end Commands

section Requests

variable {environment : String → Option (List UInt8)} {arguments : List String} {request : Request}

theorem Settings.sampleShift_elim_lt {settings : Settings}
    (small : settings.sampleShift < Pacer.shiftLimit) (shift : Option Nat) :
    (shift.elim settings settings.chooseShift).sampleShift < Pacer.shiftLimit := by
  cases shift with
  | none => exact small
  | some shift =>
    simp only [Option.elim, Settings.chooseShift]
    split
    · assumption
    · exact small

theorem Settings.sampleShift_chooseEncoding (settings : Settings) (e : Option Encoding) :
    (e.elim settings settings.chooseEncoding).sampleShift = settings.sampleShift := by
  cases e <;> rfl

/-- However the settings of a request are chosen, they have a pacer, and nothing can stop it. -/
theorem requestSettings_pacer (environment : String → Option (List UInt8)) (request : Request) :
    ∃ pacer : Pacer, (requestSettings environment request).pacer = .ok pacer ∧
      ∀ total, pacer.stopRow total = none := by
  have standard : Settings.standard.sampleShift < Pacer.shiftLimit := by decide
  have small : (requestSettings environment request).sampleShift < Pacer.shiftLimit := by
    apply Settings.sampleShift_elim_lt
    rw [Settings.sampleShift_chooseEncoding, Settings.ofEnvironment,
      Settings.sampleShift_chooseEncoding]
    exact Settings.sampleShift_elim_lt standard _
  refine ⟨.ofShift (requestSettings environment request).sampleShift, ?_, fun total =>
    Pacer.stopRow_of_no_flag total rfl⟩
  rw [Settings.pacer, Pacer.new, require_eq_ok.mpr (decide_eq_true small)]
  rfl

theorem canStore_encodingOver (settings : Settings) (p : SmallPrime) :
    (settings.encodingOver p).canStore p = true := by
  have fastest : (Encoding.fastest p).canStore p = true := by
    unfold Encoding.fastest Encoding.canStore
    split <;> simp_all
  unfold Settings.encodingOver
  split
  · split
    · assumption
    · exact fastest
  · exact fastest

theorem run_shown [Storage.Memory] {text : String}
    (parsed : Arguments.parse arguments = some request)
    (yields : Yields (execute (requestSettings environment request) request.command : Step M String)
      d text d') :
    Runs (run environment arguments : M Ending) d (.shown text) d' := by
  rw [run, parsed]
  exact runs_bind yields (runs_pure _ d')

end Requests

end RowReduction.Tool
