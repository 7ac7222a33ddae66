import TlsProbe.Listeners.Table
import TlsProbe.Listeners.Theorems.Lines

namespace TlsProbe.Listeners

open Process (Endian)

section Lines

variable {text text' : Text} {ls : List Text} {addr : IpAddr} {port : UInt16} {sl k n : Nat}

theorem OnLine.append (h : OnLine text) (h' : OnLine text') : OnLine (text ++ text') :=
  List.forall_mem_append.mpr ⟨h, h'⟩

theorem OnLine.blank (h : OnLine text) : OnLine (' ' :: text) :=
  List.forall_mem_cons.mpr ⟨by decide, h⟩

theorem onLine_plain (h : ∀ c ∈ text, Plain c) : OnLine text := by
  intro c hc
  have hw := (h c hc).2.2.1
  constructor <;> rintro rfl <;> exact absurd hw (by decide)

theorem onLine_hexSocket : OnLine (hexSocket addr port) := by
  refine (onLine_plain plain_of_mem_hexAddr).append ?_
  exact List.forall_mem_cons.mpr ⟨by decide, onLine_plain fun _ => plain_of_mem_hex⟩

theorem onLine_lineNumber : OnLine (lineNumber sl) := by
  refine .append (.append ?_ ?_) (by simp [OnLine])
  case refine_1 =>
    intro c hc
    obtain rfl := List.eq_of_mem_replicate hc
    decide
  case refine_2 =>
    intro c hc
    obtain ⟨d, hd, rfl⟩ := Digits.mem_toDigits (by decide) hc
    have hs : ∀ d < 10, Nat.digitChar d ≠ '\n' ∧ Nat.digitChar d ≠ '\r' := by decide
    exact hs d hd

theorem lines_unlines (h : ∀ l ∈ ls, OnLine l) : lines (Words.unlines '\n' ls) = ls := by
  have hs : ls.map stripReturn = ls := by
    refine (List.map_congr_left fun l hl => if_neg fun hr => ?_).trans (List.map_id _)
    exact (h l hl _ (List.mem_of_getLast? hr)).2 rfl
  rw [lines, Words.splitOn_unlines fun l hl hn => (h l hl _ hn).1 rfl]
  simp [hs]

end Lines

section Tables

variable {Octets : Type} {ip : Octets → IpAddr} {socket : Socket Octets}
variable {sockets : List (Socket Octets)} {sl : Nat} {parseAddr : ParseAddr}

theorem onLine_line : OnLine (socket.line ip sl) := by
  refine onLine_lineNumber.append onLine_hexSocket |>.append ?_
  refine .blank <| onLine_hexSocket.append <| .blank ?_
  exact (onLine_plain fun _ => plain_of_mem_hex).append socket.fields.property.blank

-- A line is taken for what it is.
theorem parseListenLine_line (hp : ∀ octets, (ip octets).parser = parseAddr) :
    parseListenLine (socket.line ip sl) parseAddr =
      .ok ((socket.listens ip).map .ok) := by
  by_cases hs : socket.state.toNat = stateListen
  case pos =>
    have hl : socket.line ip sl = procLine sl (ip socket.addr) socket.port (ip socket.remAddr)
      socket.remPort socket.fields.val := by rw [Socket.line, hs, procLine]
    rw [hl, ←hp socket.addr, parseListenLine_procLine]
    simp [Socket.listens, hs]
  case neg =>
    have hr : fromStrRadix 8 (hex 2 socket.state.toNat) = some socket.state.toNat :=
      fromStrRadix_hex socket.state.toNat_lt
    rw [parseListenLine, Socket.line, List.append_assoc, splitWhitespace_lineNumber,
      splitWhitespace_hexSocket, splitWhitespace_hexSocket,
      splitWhitespace_part hex_ne_nil fun c hc => (plain_of_mem_hex hc).2.2.1]
    simp only [hr, Option.some.injEq, hs, if_false]
    simp [Socket.listens, hs]
    rfl

theorem readLines_map {α : Type} {line : α → Text} {read : α → Option ListenEntry}
    {parseLine : ParseLine} {as : List α} {out : List ListenEntry}
    (h : ∀ a ∈ as, parseLine (line a) = .ok ((read a).map .ok)) :
    (readLines parseLine out (as.map line)).run = .ok (.ok (out ++ as.filterMap read)) := by
  induction as generalizing out
  case nil => simp [readLines]; rfl
  case cons a as hi =>
    obtain ⟨ha, has⟩ := List.forall_mem_cons.mp h
    rw [List.map_cons, readLines, Checked.run_lift_bind ha]
    cases hr : read a
    case none => simpa [hr] using hi has
    case some entry =>
      have he : (MonadExcept.ofExcept (.ok entry) : ExceptT String Checked _).run =
        .ok (.ok entry) := rfl
      simp only [Option.map_some]
      rw [Checked.run_bind_ok he, hi has]
      simp [hr]

theorem lines_print {table : SocketTable Octets} : lines (table.print ip) =
    table.titles.val :: table.sockets.zipIdx.map fun (socket, sl) => socket.line ip sl := by
  refine lines_unlines fun l hl => ?_
  obtain rfl | hl := List.mem_cons.mp hl
  case inl => exact table.titles.property
  case inr =>
    obtain ⟨_, _, rfl⟩ := List.mem_map.mp hl
    exact onLine_line

-- The sockets of a table that listen are read in their order, and no others.
theorem readListenersProc_print {table : SocketTable Octets}
    (hp : ∀ octets, (ip octets).parser = parseAddr) :
    (readListenersProc (.ok (table.print ip)) (parseListenLine · parseAddr)).run =
      .ok (.ok (table.sockets.filterMap (·.listens ip))) := by
  have hf : (MonadExcept.ofExcept (.ok (table.print ip)) : ExceptT String Checked _).run =
    .ok (.ok (table.print ip)) := rfl
  have hz : table.sockets.zipIdx.filterMap (fun p => p.1.listens ip) =
      table.sockets.filterMap (·.listens ip) := by
    have h := List.filterMap_map (l := table.sockets.zipIdx) (f := Prod.fst) (g := (·.listens ip))
    rwa [List.zipIdx_map_fst, eq_comm] at h
  rw [readListenersProc, Checked.run_bind_ok hf, lines_print, List.drop_one, List.tail_cons,
    @readLines_map _ _ (fun p => p.1.listens ip) _ _ _ fun _ _ => parseListenLine_line hp, hz]
  rfl

theorem readTable_print {table : Option (SocketTable Octets)}
    (hp : ∀ octets, (ip octets).parser = parseAddr) :
    (readTable (table.map (.ok <| ·.print ip)) (parseListenLine · parseAddr)).run =
      .ok (.ok (SocketTable.listening ip table)) := by
  cases table
  case none       => rfl
  case some table =>
    rw [Option.map_some, readTable, readListenersProc_print hp]
    simp [SocketTable.listening]

end Tables

theorem ListenEntry.sorted (entries : List ListenEntry) :
    (entries.mergeSort ListenEntry.le).Pairwise (·.key ≤ ·.key) := by
  have ht (a b c : ListenEntry) : a.le b → b.le c → a.le c := by
    simpa only [le, decide_eq_true_eq] using Nat.le_trans
  have hn (a b : ListenEntry) : a.le b || b.le a := by
    simpa [le] using Nat.le_total a.key b.key
  simpa [le] using List.pairwise_mergeSort ht hn entries

-- Of all the sockets in the two tables, the program lists those that listen, in order, with the
-- bytes of each word of their addresses turned around.
theorem run_print (tcp : Option (SocketTable (Vector UInt8 4)))
    (tcp6 : Option (SocketTable (Vector UInt8 16))) :
    let proc : ProcNet := ⟨tcp.map (.ok <| ·.print .v4), tcp6.map (.ok <| ·.print .v6)⟩
    ∃ entries, (run .little proc).run = .ok (.ok entries) ∧
      entries.Pairwise (·.key ≤ ·.key) ∧
      entries.Perm (SocketTable.listening .v4 tcp ++ SocketTable.listening .v6 tcp6) := by
  refine ⟨_, ?_, ListenEntry.sorted _, List.mergeSort_perm _ _⟩
  have h := @readTable_print _ IpAddr.v4 parseIpv4Hex tcp fun _ => rfl
  have h6 := @readTable_print _ IpAddr.v6 (parseIpv6Hex .little) tcp6 fun _ => rfl
  rw [run, Checked.run_bind_ok h, Checked.run_bind_ok h6]
  rfl

end TlsProbe.Listeners
