import AkronSlot.Mql5.CharArrays

/-!
# `SendFrame` of SlotService

The loop that writes a frame to the event socket.  A call of `send` takes some of the
bytes that it is offered and says how many; the loop counts them, but it offers the start
of the buffer every time, so that a write that is not complete is followed by bytes that
have been sent before.

The buffer holds as many bytes as the line has UTF-16 units, which is what `StringLen`
counts.

## When a short write does no harm

What is on the wire after the loop is a sum of beginnings of the buffer, one for each write. It
is the buffer if every write after the first happens to take bytes that the buffer has at its
start too, as `Repeats` says.

A frame that is not ASCII has more bytes than units, so its last bytes and the newline are not
in the buffer at all.

## Main Definitions

* `SendResults`, `CmdSocket`, `sendLoop`, `sendFrame`
* `accepted` — the sizes of the writes
* `Sends` — what is promised of a frame
* `Repeats`

## Main Results

* `sendLoop_of_none`, `sendLoop_of_some`, `length_accepted_le`
* `flatMap_take_eq_iff`
* `sends_iff`
-/

namespace AkronSlot.Mql5

open Wire Wire.Utf8

/-! ## The loop -/

/-- What the calls of `send` report, by their number and the bytes they are offered: an error, or
how many bytes they have taken. A call takes one byte at least; a socket that can take none
reports an error. -/
def SendResults := ℕ → (offered : ℕ) → Option { n : ℕ // 0 < n ∧ n ≤ offered }

/-- The event socket: whether it is open, and the bytes on the wire. A socket that is closed is
never opened again; `ConnectToSlot` makes another one. -/
structure CmdSocket where
  isOpen : Bool := true
  wire : Bytes := []
  deriving DecidableEq

/-- `closesocket(g_cmdSock)`. -/
def CmdSocket.close (s : CmdSocket) : CmdSocket := { s with isOpen := false }

/-- `buf` of `SendFrame`: the bytes of the line in UTF-8, cut to as many as the line has UTF-16
units. -/
def lineBuffer (json : Text) : Bytes :=
  (encode (json ++ ['\n'])).take (utf16Length (json ++ ['\n']))

/-- The loop of `SendFrame`, from its `call`-th call of `send` on. Every call is given `buf`
itself and `total - sent`, so it is offered the first `total - sent` bytes. -/
def sendLoop (results : SendResults) (buf : Bytes) (call sent : ℕ) (s : CmdSocket) :
    Bool × CmdSocket :=
  if sent < buf.length then
    match results call (buf.length - sent) with
    | none => (false, s.close)
    | some n =>
        sendLoop results buf (call + 1) (sent + n) { s with wire := s.wire ++ buf.take n }
  else (true, s)
termination_by buf.length - sent
decreasing_by
  have := n.2.1
  omega

/-- `SendFrame`. -/
def sendFrame (results : SendResults) (s : CmdSocket) (json : Text) : Bool × CmdSocket :=
  if s.isOpen then sendLoop results (lineBuffer json) 0 0 s else (false, s)

/-- **What is promised of a frame**: it fails with the socket closed, or the bytes of the
frame and a newline are on the wire. -/
def Sends (results : SendResults) (s : CmdSocket) (json : Text) : Prop :=
  match sendFrame results s json with
  | (false, s') => s'.isOpen = false
  | (true, s') => s'.wire = s.wire ++ (encode json ++ [newline])

/-! ## The sizes of the writes -/

/-- The sizes of the writes of the loop, unless a call fails. They depend on what the calls report
and on the length of the buffer, not on its bytes. -/
def accepted (results : SendResults) (total call sent : ℕ) : Option (List ℕ) :=
  if sent < total then
    match results call (total - sent) with
    | none => none
    | some n => (accepted results total (call + 1) (sent + n)).map (n.1 :: ·)
  else some []
termination_by total - sent
decreasing_by
  have := n.2.1
  omega

/-- A loop in which a call fails ends with the socket closed. -/
theorem sendLoop_of_none {results : SendResults} {buf : Bytes} {call sent : ℕ}
    (h : accepted results buf.length call sent = none) (s : CmdSocket) :
    (sendLoop results buf call sent s).1 = false ∧
      (sendLoop results buf call sent s).2.isOpen = false := by
  fun_induction accepted results buf.length call sent generalizing s with
  | case1 call sent hlt hresult =>
      rw [sendLoop, if_pos hlt, hresult]
      exact ⟨rfl, rfl⟩
  | case2 call sent hlt n hresult ih =>
      rw [sendLoop, if_pos hlt, hresult]
      exact ih (Option.map_eq_none_iff.mp h) _
  | case3 call sent hge => cases h

/-- **What the loop puts on the wire**: the start of the buffer with every write. -/
theorem sendLoop_of_some {results : SendResults} {buf : Bytes} {call sent : ℕ} {ns : List ℕ}
    (h : accepted results buf.length call sent = some ns) (s : CmdSocket) :
    sendLoop results buf call sent s =
      (true, { s with wire := s.wire ++ ns.flatMap buf.take }) := by
  fun_induction accepted results buf.length call sent generalizing s ns with
  | case1 call sent hlt hresult => cases h
  | case2 call sent hlt n hresult ih =>
      obtain ⟨ms, hms, rfl⟩ := Option.map_eq_some_iff.mp h
      rw [sendLoop, if_pos hlt, hresult]
      dsimp only
      rw [ih hms]
      simp
  | case3 call sent hge =>
      cases h
      rw [sendLoop, if_neg hge]
      simp

/-- The writes of a loop that ends without an error take as many bytes as there are. -/
theorem sum_accepted {results : SendResults} {total call sent : ℕ} {ns : List ℕ}
    (h : accepted results total call sent = some ns) (hsent : sent ≤ total) :
    sent + ns.sum = total := by
  fun_induction accepted results total call sent generalizing ns with
  | case1 call sent hlt hresult => cases h
  | case2 call sent hlt n hresult ih =>
      obtain ⟨ms, hms, rfl⟩ := Option.map_eq_some_iff.mp h
      have hle := n.2.2
      have hrest := ih hms (by omega)
      rw [List.sum_cons]
      omega
  | case3 call sent hge =>
      cases h
      simp only [List.sum_nil]
      omega

/-- **The loop ends** after at most as many writes as there are bytes. -/
theorem length_accepted_le {results : SendResults} {total call sent : ℕ} {ns : List ℕ}
    (h : accepted results total call sent = some ns) : ns.length ≤ ns.sum := by
  fun_induction accepted results total call sent generalizing ns with
  | case1 call sent hlt hresult => cases h
  | case2 call sent hlt n hresult ih =>
      obtain ⟨ms, hms, rfl⟩ := Option.map_eq_some_iff.mp h
      have hpos := n.2.1
      have hrest := ih hms
      rw [List.sum_cons, List.length_cons]
      omega
  | case3 call sent hge =>
      cases h
      exact le_rfl

/-! ## Writes that start over -/

/-- Every write takes bytes from the start of the buffer that are those that are due. A single
write that takes everything does. -/
def Repeats (buf : Bytes) (ns : List ℕ) : Prop :=
  ∀ before n after, ns = before ++ n :: after → buf.take n = (buf.drop before.sum).take n

/-- Writes from the start of a buffer make the buffer exactly if they repeat it. -/
theorem flatMap_take_eq_iff {buf : Bytes} {ns : List ℕ} (h : ns.sum = buf.length) :
    ns.flatMap buf.take = buf ↔ Repeats buf ns := by
  -- induction on the writes, behind the `k` bytes that the earlier ones have sent
  have hfrom : ∀ (ns : List ℕ) (k : ℕ), k + ns.sum = buf.length →
      (ns.flatMap buf.take = buf.drop k ↔
        ∀ before n after, ns = before ++ n :: after →
          buf.take n = (buf.drop (k + before.sum)).take n) := by
    intro ns
    induction ns with
    | nil =>
        intro k hk
        rw [List.sum_nil, add_zero] at hk
        simp [hk]
    | cons n ns ih =>
        intro k hk
        rw [List.sum_cons] at hk
        have hsplit : buf.drop k = (buf.drop k).take n ++ buf.drop (k + n) := by
          rw [← List.drop_drop, List.take_append_drop]
        have hlength : (buf.take n).length = ((buf.drop k).take n).length := by
          simp only [List.length_take, List.length_drop]
          omega
        rw [List.flatMap_cons]
        constructor
        · intro heq before m after hns
          rw [hsplit] at heq
          obtain ⟨hfirst, hrest⟩ := List.append_inj heq hlength
          cases before with
          | nil =>
              obtain ⟨rfl, rfl⟩ := List.cons.inj hns
              exact hfirst
          | cons b before =>
              obtain ⟨rfl, rfl⟩ := List.cons.inj hns
              rw [List.sum_cons, ← add_assoc]
              exact (ih (k + n) (by omega)).mp hrest before m after rfl
        · intro hrepeats
          have hfirst : buf.take n = (buf.drop k).take n := hrepeats [] n ns rfl
          have hrest : ns.flatMap buf.take = buf.drop (k + n) := by
            refine (ih (k + n) (by omega)).mpr fun before m after hns => ?_
            rw [add_assoc, ← List.sum_cons]
            exact hrepeats (n :: before) m after (congrArg (n :: ·) hns)
          rw [hsplit, ← hfirst, hrest]
  have hall := hfrom ns 0 (by omega)
  simp only [List.drop_zero, zero_add] at hall
  exact hall

theorem length_flatMap_take_le (buf : Bytes) (ns : List ℕ) :
    (ns.flatMap buf.take).length ≤ ns.sum := by
  induction ns with
  | nil => exact le_rfl
  | cons n ns ih =>
      have htake : (buf.take n).length ≤ n := List.length_take_le n buf
      rw [List.flatMap_cons, List.length_append, List.sum_cons]
      exact Nat.add_le_add htake ih

/-! ## Frames -/

/-- The buffer of a frame is its line exactly if the frame is ASCII. -/
theorem lineBuffer_eq_iff (json : Text) :
    lineBuffer json = encode json ++ [newline] ↔ AllAscii json := by
  obtain ⟨hle, hiff⟩ := length_encode (json ++ ['\n'])
  rw [← allAscii_line, ← hiff, lineBuffer, ← encode_newline, ← encode_append]
  constructor
  · intro h
    have hlength := congrArg List.length h
    rw [List.length_take] at hlength
    omega
  · intro h
    rw [← h, List.take_length]

/-- A buffer that is as long as the line is the buffer of an ASCII frame. -/
theorem ascii_of_length_le {json : Text}
    (h : (encode json ++ [newline]).length ≤ (lineBuffer json).length) : AllAscii json := by
  obtain ⟨hle, hiff⟩ := length_encode (json ++ ['\n'])
  rw [← encode_newline, ← encode_append, lineBuffer, List.length_take] at h
  exact (allAscii_line json).mp (hiff.mp (by omega))

/-- **Which frames are sent as promised**: those of which a write fails, and those that are
ASCII and whose writes after the first one take bytes that repeat the start of the buffer. -/
theorem sends_iff (results : SendResults) (s : CmdSocket) (json : Text) :
    Sends results s json ↔
      s.isOpen = false ∨ accepted results (lineBuffer json).length 0 0 = none ∨
        (AllAscii json ∧ ∃ ns, accepted results (lineBuffer json).length 0 0 = some ns ∧
          Repeats (lineBuffer json) ns) := by
  rw [Sends, sendFrame]
  cases hopen : s.isOpen with
  | false => simp [hopen]
  | true =>
      rw [if_pos rfl]
      cases haccepted : accepted results (lineBuffer json).length 0 0 with
      | none =>
          obtain ⟨hfailed, hclosed⟩ := sendLoop_of_none haccepted s
          obtain ⟨ok, s', heq⟩ : ∃ ok s', sendLoop results (lineBuffer json) 0 0 s = (ok, s') :=
            ⟨_, _, rfl⟩
          rw [heq] at hfailed hclosed ⊢
          obtain rfl : ok = false := hfailed
          simpa using hclosed
      | some ns =>
          have hsum : ns.sum = (lineBuffer json).length := by
            have := sum_accepted haccepted (Nat.zero_le _)
            omega
          rw [sendLoop_of_some haccepted s]
          simp only [Bool.true_eq_false, reduceCtorEq, false_or, Option.some.injEq,
            exists_eq_left', List.append_cancel_left_eq]
          rw [← flatMap_take_eq_iff hsum, ← lineBuffer_eq_iff]
          constructor
          · intro hwire
            -- a line that is no longer than the buffer has one byte for each character
            have hlength : (encode json ++ [newline]).length ≤ (lineBuffer json).length := by
              rw [← hwire, ← hsum]
              exact length_flatMap_take_le _ ns
            have hline := (lineBuffer_eq_iff json).mpr (ascii_of_length_le hlength)
            exact ⟨hline, hwire.trans hline.symm⟩
          · rintro ⟨hline, hwire⟩
            exact hwire.trans hline

/-- A socket that takes three bytes with the first call and whatever is left with the
others. -/
def shortWrite : SendResults := fun call offered =>
  if h : call = 0 ∧ 3 ≤ offered then some ⟨3, by omega⟩
  else if h : 0 < offered then some ⟨offered, h, le_rfl⟩
  else none

theorem accepted_shortWrite : accepted shortWrite 6 0 0 = some [3, 3] := by
  have hfirst : shortWrite 0 (6 - 0) = some ⟨3, by omega⟩ := rfl
  have hsecond : shortWrite (0 + 1) (6 - (0 + 3)) = some ⟨3, by omega⟩ := rfl
  rw [accepted, if_pos (by decide), hfirst]
  dsimp only
  rw [accepted, if_pos (by decide), hsecond]
  dsimp only
  rw [accepted, if_neg (by decide)]
  rfl

/-- **A write that is not complete**: the frame `hello` goes out as `helhel`. -/
theorem shortWrite_repeats :
    sendFrame shortWrite {} "hello" = (true, { wire := encode "helhel" }) ∧
      ¬ Sends shortWrite {} "hello" := by
  have hbuffer : lineBuffer "hello" = [104, 101, 108, 108, 111, 10] := by decide
  have hsizes : accepted shortWrite (lineBuffer "hello").length 0 0 = some [3, 3] := by
    rw [hbuffer]
    exact accepted_shortWrite
  have hsent : sendFrame shortWrite {} "hello" = (true, { wire := encode "helhel" }) := by
    rw [sendFrame, if_pos rfl, sendLoop_of_some hsizes, hbuffer]
    decide
  refine ⟨hsent, ?_⟩
  rw [Sends, hsent]
  decide

end AkronSlot.Mql5
