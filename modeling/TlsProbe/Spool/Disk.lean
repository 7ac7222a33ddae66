import Mathlib.Data.List.Sort
import Mathlib.Data.UInt
import Std.Data.ExtTreeMap
import TlsProbe.Lib.History

open Std

namespace TlsProbe.Spool

abbrev Bytes := List UInt8

-- A file is known by its name in the output directory.
abbrev FileName := List Char

inductive IoError
  | notFound
  | failed
  deriving DecidableEq

-- The output directory, with the name of the file that is open for writing: a file that is renamed
-- stays open, and a file that is removed or replaced stays open without a name. The log lists the
-- files that came to their names by a rename, and the removed ones. It is only there to be reasoned
-- about.
structure Disk where
  files    : ExtTreeMap FileName Bytes
  openName : Option FileName
  log      : List (Change FileName Bytes)

namespace Disk

def read (disk : Disk) (name : FileName) : Bytes :=
  disk.files[name]?.getD []

-- `fs::read_dir` lists the files in any order.
def readDir (disk : Disk) (order : FileName → Nat) : List FileName :=
  disk.files.keys.insertionSort (order · ≤ order ·)

-- Writes behind what has been written to the open file.
def write (disk : Disk) (bytes : Bytes) : Disk :=
  match disk.openName with
  | some name => { disk with files := disk.files.insert name (disk.read name ++ bytes) }
  | none      => disk

-- `File::create`
def create (disk : Disk) (name : FileName) : Disk where
  files    := disk.files.insert name []
  openName := some name
  log      := disk.log

-- `fs::rename`
def rename (disk : Disk) (src dst : FileName) : Except IoError Disk :=
  match disk.files[src]? with
  | none       => .error .notFound
  | some bytes => .ok {
      files    := (disk.files.erase src).insert dst bytes
      openName :=
        if disk.openName = some src then
          some dst
        else if disk.openName = some dst then
          none
        else
          disk.openName
      log      := disk.log ++ [.put dst bytes]
    }

-- `fs::remove_file`
def remove (disk : Disk) (name : FileName) : Except IoError Disk :=
  if name ∈ disk.files then
    .ok {
      files    := disk.files.erase name
      openName := if disk.openName = some name then none else disk.openName
      log      := disk.log ++ [.del name]
    }
  else
    .error .notFound

end Disk
end TlsProbe.Spool
