import TlsProbe.Listeners.Basic

namespace TlsProbe.Listeners

open Process (Endian)

-- A line without the carriage return in front of its end.
def stripReturn (line : Text) : Text :=
  if line.getLast? = some '\r' then line.dropLast else line

-- `str::lines`: what stands behind the last newline is a line if there is anything.
def lines (content : Text) : List Text :=
  let parts := content.splitOn '\n'
  parts.dropLast.map stripReturn ++ parts.getLast?.toList.filter (!·.isEmpty)

abbrev ParseLine := Text → Checked (Option (Except String ListenEntry))

-- The loop over the lines.
def readLines (parseLine : ParseLine) (out : List ListenEntry) :
    List Text → ExceptT String Checked (List ListenEntry)
  | []            => return out
  | line :: lines => do
    match ← parseLine line with
    | none       => readLines parseLine out lines
    | some entry =>
      let entry ← MonadExcept.ofExcept entry
      readLines parseLine (out ++ [entry]) lines

-- What `read_to_string` gives, or the message of its error.
abbrev File := Except String Text

def readListenersProc (file : File) (parseLine : ParseLine) :
    ExceptT String Checked (List ListenEntry) := do
  let content ← MonadExcept.ofExcept file
  readLines parseLine [] ((lines content).drop 1)

-- The two tables of the host, as far as they exist.
structure ProcNet where
  tcp  : Option File
  tcp6 : Option File

namespace ListenEntry

-- What the entries are sorted by: the family, the address and the port, as one number.
def key (entry : ListenEntry) : Nat :=
  match entry.addr with
  | .v4 octets => value octets * 2 ^ 16 + entry.port.toNat
  | .v6 octets => 2 ^ 48 + value octets * 2 ^ 16 + entry.port.toNat
where
  value {n : Nat} (octets : Vector UInt8 n) : Nat :=
    octets.foldl (fun value octet => 0x100 * value + octet.toNat) 0

def le (entry entry' : ListenEntry) : Bool :=
  entry.key ≤ entry'.key

end ListenEntry

-- The entries of a table, if it exists.
def readTable (file : Option File) (parseLine : ParseLine) :
    ExceptT String Checked (List ListenEntry) :=
  match file with
  | some file => readListenersProc file parseLine
  | none      => return []

-- The entries that are printed.
def run (endian : Endian) (proc : ProcNet) : ExceptT String Checked (List ListenEntry) := do
  let entries ← readTable proc.tcp (parseListenLine · parseIpv4Hex)
  let entries6 ← readTable proc.tcp6 (parseListenLine · (parseIpv6Hex endian))
  return (entries ++ entries6).mergeSort ListenEntry.le

end TlsProbe.Listeners
