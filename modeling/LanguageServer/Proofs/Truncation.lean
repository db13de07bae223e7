import LanguageServer.Proofs.Written
/-!
# Streams that break off

A stream that ends within a header block is taken for one that has ended (`read_eq_ended_iff`); one
that ends within a body is refused. So where the frame of a value breaks off decides whether a
session ends there or fails (`run_of_cut`).
-/

namespace LanguageServer

/-! ## Bytes and characters of texts -/

theorem Json.layout_ne_nil (format : NumberFormat) (d : Binary64.Decimal) :
    layout format d ≠ [] := by
  unfold layout
  dsimp only
  split
  · simp
  · split
    · simp
    · split
      · simp
      · simp [power]

theorem Json.print_ne_nil (value : Json) : value.print ≠ [] := by
  cases value with
  | null | str | arr | obj => simp [print, quoted]
  | bool value => cases value <;> simp [print]
  | int value =>
    unfold print integer
    split
    · exact List.cons_ne_nil _ _
    · exact decimal_ne_nil _
  | float value =>
    unfold print number
    dsimp only
    split
    · exact List.cons_ne_nil _ _
    · split
      · exact List.cons_ne_nil _ _
      · exact layout_ne_nil _ _

namespace Utf8

/-- Characters of one byte each part as their bytes do. -/
theorem take_encode {chars : List Char} (single : ∀ c ∈ chars, c.val.toNat ≤ 127) (count : Nat) :
    (encode chars).take count = encode (chars.take count) := by
  induction chars generalizing count with
  | nil => simp [encode]
  | cons c rest ih =>
    have byte : ∃ byte, String.utf8EncodeChar c = [byte] := by
      unfold String.utf8EncodeChar
      exact ⟨_, if_pos (single c List.mem_cons_self)⟩
    obtain ⟨byte, encoded⟩ := byte
    cases count with
    | zero => rfl
    | succ count =>
      have tail := ih (fun d member => single d (List.mem_cons_of_mem _ member)) count
      rw [List.take_succ_cons, encode_cons, encode_cons, encoded, ← tail]
      rfl

end Utf8

namespace Frame

/-! ## Where reading finds the end -/

/-- A stream that ends before a header block is complete: lines that are not empty, of which the
last one may lack its line feed. -/
inductive BreaksOff : List UInt8 → Prop
  | start : BreaksOff []
  | inside {line : List Char} (unbroken : '\n' ∉ line) (filled : ∃ c ∈ line, c ≠ '\r') :
      BreaksOff (Utf8.encode line)
  | behind {line : List Char} {rest : List UInt8} (unbroken : '\n' ∉ line)
      (filled : ∃ c ∈ line, c ≠ '\r') (more : BreaksOff rest) :
      BreaksOff (Utf8.encode (line ++ ['\n']) ++ rest)

theorem BreaksOff.readBlock {input : List UInt8} (h : BreaksOff input) (length : Option Nat) :
    readBlock length input = (.ended, []) := by
  induction h generalizing length with
  | start => rw [Frame.readBlock, dif_pos rfl]
  | @inside line unbroken filled =>
    have nonempty : Utf8.encode line ≠ [] := by
      obtain ⟨c, member, -⟩ := filled
      exact Utf8.encode_ne_nil (List.ne_nil_of_mem member)
    have whole := readLine_of_notMem (mt Utf8.lineFeed_mem_encode.mp unbroken)
    have kept := (trimBreaks_ne_nil_iff unbroken).mpr filled
    rw [Frame.readBlock, dif_neg nonempty, whole]
    dsimp only
    rw [blockStep_of_kept length kept]
    dsimp only
    rw [Frame.readBlock, dif_pos rfl]
  | behind unbroken filled more ih =>
    rw [readBlock_line length unbroken filled]
    exact ih _

/-- Only streams that end before a header block is complete end within one. -/
theorem breaksOff_of_readBlock {length : Option Nat} {input : List UInt8}
    (h : (readBlock length input).1 = .ended) : BreaksOff input := by
  fun_induction readBlock length input with
  | case1 => exact .start
  | case2 length input nonempty next step ih =>
    obtain ⟨chars, encoded, kept, -⟩ := exists_of_blockStep_eq_more step
    by_cases ended : lineFeed ∈ input
    · obtain ⟨front, rfl, unbroken⟩ := exists_front_of_readLine ended encoded
      rw [trimBreaks_append_lineFeed] at kept
      rw [readLine_parts ended, encoded]
      exact .behind unbroken ((trimBreaks_ne_nil_iff unbroken).mp kept) (ih h)
    · rw [readLine_of_notMem ended] at encoded
      dsimp only at encoded
      subst encoded
      have unbroken := mt Utf8.lineFeed_mem_encode.mpr ended
      exact .inside unbroken ((trimBreaks_ne_nil_iff unbroken).mp kept)
  | case3 => cases h
  | case4 => cases h

theorem read_of_breaksOff {input : List UInt8} (h : BreaksOff input) :
    read input = (.ended, []) := by
  unfold read
  rw [h.readBlock none]

/-- Reading finds the end of a stream where the stream ends before a header block is complete. -/
theorem read_eq_ended_iff {input : List UInt8} :
    (read input).1 = .ended ↔ BreaksOff input := by
  constructor
  · intro ended
    have block := readBlock_of_read_ended ended
    exact breaksOff_of_readBlock (congrArg Prod.fst block)
  · intro breaks
    rw [read_of_breaksOff breaks]

/-- A body that is shorter than announced is refused, and nothing is left. -/
theorem read_of_short {input rest : List UInt8} {length : Nat}
    (block : readBlock none input = (.complete (some length), rest)) (fits : length ≤ maxLength)
    (short : rest.length < length) : read input = (.failed .truncated, []) := by
  unfold read
  rw [block]
  dsimp only
  rw [if_neg (Nat.not_lt.mpr fits), if_pos short]

/-! ## Where a frame breaks off -/

/-- The bytes of the header line that announces a length. -/
def lengthLineBytes (length : Nat) : List UInt8 := Utf8.encode (lengthLine length ++ ['\n'])

theorem header_eq (length : Nat) : header length = lengthLineBytes length ++ [13, 10] := by
  rw [← bytes_lengthBlock]
  show Utf8.encode ((lengthLine length ++ ['\n'] ++ []) ++ ['\r', '\n']) = _
  rw [List.append_nil, Utf8.encode_append]
  rfl

theorem single_of_mem_lengthLine {length : Nat} {c : Char} (h : c ∈ lengthLine length ++ ['\n']) :
    c.val.toNat ≤ 127 := by
  have name : ("Content-Length: ".toList.all fun c => c.val.toNat ≤ 127) = true := by decide
  unfold lengthLine at h
  rcases List.mem_append.mp h with line | feed
  · rcases List.mem_append.mp line with front | carriage
    · rcases List.mem_append.mp front with letter | digit
      · exact of_decide_eq_true (List.all_eq_true.mp name c letter)
      · have bounds := Json.bounds_of_isDigit (Json.isDigit_of_mem_decimal digit)
        exact Nat.le_trans bounds.2 (by decide)
    · rw [List.mem_singleton.mp carriage]
      decide
  · rw [List.mem_singleton.mp feed]
    decide

/-- As much as there is of a header line that breaks off is not empty, and completes no block. -/
theorem breaksOff_take_lengthLineBytes (length count : Nat) :
    BreaksOff ((lengthLineBytes length).take count) := by
  unfold lengthLineBytes
  rw [Utf8.take_encode fun _ => single_of_mem_lengthLine]
  by_cases within : count ≤ (lengthLine length).length
  · rw [List.take_append_of_le_length within]
    cases count with
    | zero => exact .start
    | succ count =>
      have first : 'C' ∈ (lengthLine length).take (count + 1) := List.mem_cons_self
      have unbroken : '\n' ∉ (lengthLine length).take (count + 1) := fun member =>
        lineFeed_notMem_lengthLine length (List.mem_of_mem_take member)
      exact .inside unbroken ⟨'C', first, by decide⟩
  · rw [List.take_of_length_le (by simp; omega)]
    have whole := BreaksOff.behind (lineFeed_notMem_lengthLine length)
      (exists_mem_lengthLine length) .start
    rwa [List.append_nil] at whole

/-- A carriage return at the end of a stream is an empty line. -/
theorem readBlock_carriageReturn (length : Option Nat) :
    readBlock length [13] = (.complete length, []) := by
  have blank : trimBreaks ['\r'] = [] := by decide
  have step : blockStep length [13] = .complete length := blockStep_of_blank length blank
  rw [readBlock, dif_neg (by simp), readLine_of_notMem (by decide)]
  dsimp only
  rw [step]

/-- Behind its length line a frame that breaks off has a block, and a body that is too short. -/
theorem readBlock_of_cut {tail back body : List UInt8} (cut : tail ++ back = [13, 10] ++ body)
    (nonempty : tail ≠ []) (more : back ≠ []) (filled : body ≠ []) (length : Option Nat) :
    ∃ part, readBlock length tail = (.complete length, part) ∧ part.length < body.length := by
  match tail with
  | [byte] =>
    simp only [List.cons_append, List.nil_append, List.cons.injEq] at cut
    obtain ⟨rfl, -⟩ := cut
    exact ⟨[], readBlock_carriageReturn length, List.length_pos_iff.mpr filled⟩
  | first :: second :: part =>
    simp only [List.cons_append, List.nil_append, List.cons.injEq] at cut
    obtain ⟨rfl, rfl, parts⟩ := cut
    refine ⟨part, readBlock_blank length 1 part, ?_⟩
    have lengths := congrArg List.length parts
    have := List.length_pos_iff.mpr more
    rw [List.length_append] at lengths
    omega

/-- A frame that breaks off within its length line, or right behind it, leaves the reader with the
end of a stream; later on it leaves it with a body that is too short. -/
theorem read_of_cut {value : Json} (fits : (Utf8.encode value.print).length ≤ maxLength)
    {front back : List UInt8} (cut : front ++ back = write value) (more : back ≠ []) :
    read front =
      (if front.length ≤ (lengthLineBytes (Utf8.encode value.print).length).length then .ended
        else .failed .truncated, []) := by
  generalize body_eq : Utf8.encode value.print = body at fits
  have filled : body ≠ [] := body_eq ▸ Utf8.encode_ne_nil value.print_ne_nil
  have whole : front ++ back = lengthLineBytes body.length ++ ([13, 10] ++ body) := by
    rw [cut, ← List.append_assoc, ← header_eq, ← body_eq]
    rfl
  by_cases within : front.length ≤ (lengthLineBytes body.length).length
  · have part : front = (lengthLineBytes body.length).take front.length := by
      have taken := congrArg (List.take front.length) whole
      rwa [List.take_left, List.take_append_of_le_length within] at taken
    rw [if_pos within, part]
    exact read_of_breaksOff (breaksOff_take_lengthLineBytes body.length _)
  · rcases List.append_eq_append_iff.mp whole with ⟨rest, line, -⟩ | ⟨tail, rfl, rest⟩
    · have lengths := congrArg List.length line
      rw [List.length_append] at lengths
      omega
    · have nonempty : tail ≠ [] := by
        rintro rfl
        simp at within
      obtain ⟨part, block, short⟩ :=
        readBlock_of_cut rest.symm nonempty more filled (some body.length)
      have announced := announced?_lengthLine (Nat.lt_of_le_of_lt fits (by decide))
      have line := readBlock_line none (lineFeed_notMem_lengthLine body.length)
        (exists_mem_lengthLine body.length) tail
      rw [announced, Option.getD_some, block] at line
      rw [if_neg within]
      exact read_of_short line fits short

end Frame

/-! ## Sessions over streams that break off -/

namespace Session

theorem run_of_ended {session : Session} (active : ¬session.exiting = true) (outlet : Outlet)
    {input : List UInt8} (ended : Frame.read input = (.ended, [])) :
    session.run outlet input = ⟨.ok session.isClean, session, [], []⟩ := by
  by_cases empty : input = []
  · rw [run, if_neg active, dif_pos empty]
  · rw [run_of_active active outlet empty, ended]
    rfl

theorem run_of_truncated {session : Session} (active : ¬session.exiting = true) (outlet : Outlet)
    {input : List UInt8} (truncated : Frame.read input = (.failed .truncated, [])) :
    session.run outlet input = ⟨.error (.unreadable .truncated), session, [], []⟩ := by
  have nonempty : input ≠ [] := by
    rintro rfl
    rw [Frame.read_nil] at truncated
    cases truncated
  rw [run_of_active active outlet nonempty, truncated]
  rfl

/-- A stream counts as ended if it ends before a header block is complete, and then only. So if what
is written for a value breaks off within its length line or right behind it, a session ends there as
it does between frames. If it breaks off later, the session fails. -/
theorem run_of_cut (input : List UInt8) :
    ((Frame.read input).1 = .ended ↔ Frame.BreaksOff input) ∧
    ∀ (value : Json) (missing : List UInt8),
      (Utf8.encode value.print).length ≤ Frame.maxLength →
      input ++ missing = Frame.write value → missing ≠ [] →
      let line := Frame.lengthLineBytes (Utf8.encode value.print).length
      Frame.read input =
        (if input.length ≤ line.length then .ended else .failed .truncated, []) ∧
      ∀ (session : Session) (outlet : Outlet), session.exiting = false →
        session.run outlet input =
          ⟨if input.length ≤ line.length then .ok session.isClean
            else .error (.unreadable .truncated), session, [], []⟩ := by
  refine ⟨Frame.read_eq_ended_iff, ?_⟩
  intro value missing fits cut more line
  have reading := Frame.read_of_cut fits cut more
  refine ⟨reading, fun session outlet goesOn => ?_⟩
  have active : ¬session.exiting = true := by rw [goesOn]; exact Bool.false_ne_true
  by_cases within : input.length ≤ line.length
  · rw [if_pos within] at reading ⊢
    exact run_of_ended active outlet reading
  · rw [if_neg within] at reading ⊢
    exact run_of_truncated active outlet reading

/-- The two sides of the place at which it matters where the frame of null breaks off. -/
theorem run_of_cut_null :
    (Utf8.encode Json.null.print).length ≤ Frame.maxLength ∧
    Utf8.encode "Content-Length: 4\r\n\r".toList ++ Utf8.encode "\nnull".toList =
      Frame.write .null ∧
    Frame.read (Utf8.encode "Content-Length: 4\r\n\r".toList) = (.failed .truncated, []) ∧
    (new.run .working (Utf8.encode "Content-Length: 4\r\n\r".toList)).result =
      .error (.unreadable .truncated) := by
  have fits : (Utf8.encode Json.null.print).length ≤ Frame.maxLength := by decide
  have cut : Utf8.encode "Content-Length: 4\r\n\r".toList ++ Utf8.encode "\nnull".toList =
      Frame.write .null := by decide
  have behind : ¬(Utf8.encode "Content-Length: 4\r\n\r".toList).length ≤
      (Frame.lengthLineBytes (Utf8.encode Json.null.print).length).length := by decide
  obtain ⟨reading, ends⟩ :=
    (run_of_cut (Utf8.encode "Content-Length: 4\r\n\r".toList)).2 .null _ fits cut (by decide)
  have outcome := ends new .working rfl
  rw [if_neg behind] at reading outcome
  exact ⟨fits, cut, reading, congrArg Outcome.result outcome⟩

/-- A stream that stops right behind the length line of a message passes for one that has ended, and
a session that was shut down before for one that ends cleanly. -/
theorem clean_end_behind_length_line :
    Utf8.encode "Content-Length: 4\r\n".toList ++ Utf8.encode "\r\nnull".toList =
      Frame.write .null ∧
    Frame.read (Utf8.encode "Content-Length: 4\r\n".toList) = (.ended, []) ∧
    ({ new with phase := .shuttingDown }.run .working
      (Utf8.encode "Content-Length: 4\r\n".toList)).result = .ok true := by
  have cut : Utf8.encode "Content-Length: 4\r\n".toList ++ Utf8.encode "\r\nnull".toList =
      Frame.write .null := by decide
  have fits : (Utf8.encode Json.null.print).length ≤ Frame.maxLength := by decide
  have within : (Utf8.encode "Content-Length: 4\r\n".toList).length ≤
      (Frame.lengthLineBytes (Utf8.encode Json.null.print).length).length := by decide
  have reading := Frame.read_of_cut fits cut (by decide)
  rw [if_pos within] at reading
  have active : ¬(Session.mk new.workspace .shuttingDown false).exiting = true := by decide
  have outcome := run_of_ended active .working reading
  exact ⟨cut, reading, congrArg Outcome.result outcome⟩

end Session

end LanguageServer
