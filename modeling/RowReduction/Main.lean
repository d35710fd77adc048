import RowReduction.Tool
/-!
The command line of the tool, over the files and the environment of the system.
-/
namespace RowReduction.Tool

/-- What an open file holds. A directory can be opened, but holds nothing that can be read. -/
def contents (handle : IO.FS.Handle) : IO Found := do
  try return .file (← handle.readBinToEnd).toList
  catch _ => return .unreadable

instance : FileStore IO where
  look path := do
    try contents (← IO.FS.Handle.mk ⟨path⟩ .read)
    catch _ => return .absent
  store path bytes := do
    try
      IO.FS.writeBinFile ⟨path⟩ bytes.toByteArray
      return true
    catch _ => return false

/-- The environment variables that the tool looks at. -/
def readEnvironment : IO (String → Option (List UInt8)) := do
  let names := [Settings.sampleShiftVariable, Settings.encodingVariable]
  let values ← names.mapM fun name => do
    return (name, (← IO.getEnv name).map fun value => value.toUTF8.toList)
  return fun name => (values.lookup name).join

end RowReduction.Tool

open RowReduction.Tool in
def main (arguments : List String) : IO UInt32 := do
  let ending ← run (← readEnvironment) arguments
  IO.print ending.output
  match ending.message with
  | some message => IO.eprintln s!"Error: {message}"
  | none => pure ()
  return UInt32.ofNat ending.exitCode
