import AkronSlot.Systems.Runs
import AkronSlot.Wire.Python
import AkronSlot.Wire.Utf8

/-!
# The events file (`mt5-bridge-adapter.py`)

The indicator appends to `slot-events.jsonl`, in pieces of any size, and the adapter drains it:
it reads what is after its offset, cuts that into lines and publishes those that are JSON.

The offset moves over all that was read, finished or not.  So a drain does what it is for when
it finds whole lines, and lines that `splitlines`, `strip` and `obj.get` leave alone.

`json.loads` is a parameter.

## Bytes, lines and pieces

The writer means the lines of the file, with the newline as their end. The adapter reads text:
it decodes what it finds, puts in a replacement character where that is not UTF-8, and cuts with
`splitlines`, which knows more line ends than the newline. `ConsumedLines` is stated over the
bytes, so that neither the decoding nor the other line ends are taken for granted; `PlainLine`
says of which lines they do no harm.

A piece that is no JSON is skipped; one that is JSON and no object raises where its kind is
read, which ends the loop over the pieces, with the offset moved all the same.

## Main Definitions

* `readNewLines`, `drainEvents`
* `Event`, `step` — appends and drains, in any order
* `fileLines`, `jsonLines` — the file as the writer means it
* `PlainLine`, `Clean` — a drain that finds whole plain lines

## Main Results

* `publishLines_decode` — what a drain publishes
* `clean_publishes`
-/

namespace AkronSlot.Slot

open Wire Systems

namespace BridgeAdapter

open Wire.Utf8 Wire.Python

/-! ## The adapter -/

/-- What `json.loads` does with a line: an object, another value (or an exception that is no
`JSONDecodeError`), or a `JSONDecodeError`. -/
inductive Loaded where
  | object
  | value
  | malformed
  deriving DecidableEq, Repr

/-- The file, `_events_offset` and what was published. -/
structure State where
  file : Bytes
  offset : ℕ
  published : List Text
  deriving DecidableEq

/-- `_read_new_lines`. -/
def readNewLines (file : Bytes) (startOffset : ℕ) : List Text × ℕ :=
  let data := file.drop startOffset
  if data = [] then ([], startOffset)
  else (splitlines (decode data), startOffset + data.length)

variable (loads : Text → Loaded)

/-- The loop of `_drain_events`: what it publishes before it ends or raises. -/
def publishLines : List Text → List Text
  | [] => []
  | line :: lines =>
      let line := strip line
      if line = [] then publishLines lines
      else
        match loads line with
        | .malformed => publishLines lines
        -- `obj.get` is an AttributeError, and the lines after this one are not seen again
        | .value => []
        | .object => line :: publishLines lines

/-- `_drain_events`. -/
def drainEvents (s : State) : State :=
  let (lines, offset) := readNewLines s.file s.offset
  { s with offset := offset, published := s.published ++ publishLines loads lines }

/-- What can happen: the writer appends some bytes; a drain; a drain that cannot read. -/
inductive Event where
  | append (bytes : Bytes)
  | drain
  | unreadable
  deriving DecidableEq

def step (s : State) : Event → Option State
  | .append bytes => some { s with file := s.file ++ bytes }
  | .drain => some (drainEvents loads s)
  | .unreadable => some s

/-- No file yet. -/
def initial : State := ⟨[], 0, []⟩

/-! ## The file as the writer means it -/

/-- The lines of a file that have their newline. -/
def fileLines (bytes : Bytes) : List Bytes := (bytes.splitOn newline).dropLast

/-- The bytes end where a line ends. It is asked of what a drain finds beyond its offset; what was
read before is consumed, whether it was whole or not. -/
def WholeLines (bytes : Bytes) : Prop := bytes = [] ∨ bytes.getLast? = some newline

instance (bytes : Bytes) : Decidable (WholeLines bytes) := inferInstanceAs (Decidable (_ ∨ _))

/-- The line is the UTF-8 of a JSON text. -/
def IsJson (line : Bytes) : Prop :=
  encode (decode line) = line ∧ decode line ≠ [] ∧ loads (decode line) ≠ .malformed

instance (line : Bytes) : Decidable (IsJson loads line) := inferInstanceAs (Decidable (_ ∧ _))

/-- The JSON lines of a file. -/
def jsonLines (bytes : Bytes) : List Bytes := (fileLines bytes).filter fun l => IsJson loads l

/-- Whole lines have been consumed, and those that are JSON have been published, once, in order
and unchanged. The invariant of a run: a clean drain moves `offset` from the end of one line to
that of a later one. -/
structure ConsumedLines (s : State) : Prop where
  within : s.offset ≤ s.file.length
  whole : WholeLines (s.file.take s.offset)
  published : s.published.map encode = jsonLines loads (s.file.take s.offset)

/-! ## Drains that find whole lines -/

/-- A JSON line is an object without blanks around it and without another line break in it; no
piece of another line is JSON. -/
structure PlainLine (line : Bytes) : Prop where
  object : IsJson loads line → loads (decode line) = .object
  stripped : IsJson loads line → strip (decode line) = decode line
  unbroken : IsJson loads line → ∀ c ∈ decode line, isLineBreak c = false
  other : ¬ IsJson loads line → ∀ piece ∈ splitlines (decode line ++ ['\n']),
    strip piece = [] ∨ loads (strip piece) = .malformed

/-- What a drain finds: whole lines, each of them plain. An append may stop anywhere, as long as
the next drain comes after the rest of the line. -/
def Clean (s : State) : Event → Prop
  | .drain => WholeLines (s.file.drop s.offset) ∧
      ∀ line ∈ fileLines (s.file.drop s.offset), PlainLine loads line
  | _ => True

/-! ## Lines of bytes -/

theorem fileLines_of_notMem {bytes : Bytes} (h : newline ∉ bytes) : fileLines bytes = [] := by
  rw [fileLines, List.splitOn_eq_singleton h]
  rfl

theorem fileLines_append_newline (as bs : Bytes) :
    fileLines (as ++ newline :: bs) = as.splitOn newline ++ fileLines bs := by
  rw [fileLines, List.splitOn_append_cons_self, List.dropLast_append_of_ne_nil
    (List.splitOn_ne_nil newline bs)]
  rfl

/-- The first line. -/
theorem fileLines_line {line : Bytes} (h : newline ∉ line) (bytes : Bytes) :
    fileLines (line ++ newline :: bytes) = line :: fileLines bytes := by
  rw [fileLines_append_newline, List.splitOn_eq_singleton h]
  rfl

/-- Lines after whole lines. -/
theorem fileLines_append {as : Bytes} (h : WholeLines as) (bs : Bytes) :
    fileLines (as ++ bs) = fileLines as ++ fileLines bs := by
  rcases h with rfl | hlast
  · rfl
  · obtain ⟨as, rfl⟩ := List.getLast?_eq_some_iff.mp hlast
    have happ := fileLines_append_newline as bs
    have hnil := fileLines_append_newline as []
    rw [List.append_assoc, List.cons_append, List.nil_append, happ, hnil]
    simp [fileLines]

theorem jsonLines_append {as : Bytes} (h : WholeLines as) (bs : Bytes) :
    jsonLines loads (as ++ bs) = jsonLines loads as ++ jsonLines loads bs := by
  rw [jsonLines, fileLines_append h, List.filter_append]
  rfl

theorem WholeLines.append {as bs : Bytes} (ha : WholeLines as) (hb : WholeLines bs) :
    WholeLines (as ++ bs) := by
  rcases hb with rfl | hlast
  · rwa [List.append_nil]
  · right
    rw [List.getLast?_append, hlast]
    rfl

/-- Induction over the lines of a file. -/
theorem lines_induction {P : Bytes → Prop} (unfinished : ∀ bytes, newline ∉ bytes → P bytes)
    (line : ∀ line bytes, newline ∉ line → P bytes → P (line ++ newline :: bytes))
    (bytes : Bytes) : P bytes := by
  induction hn : bytes.length using Nat.strong_induction_on generalizing bytes with
  | _ n ih =>
      by_cases h : newline ∈ bytes
      · obtain ⟨l, rest, rfl, hl⟩ := List.eq_append_cons_of_mem h
        refine line l rest hl (ih rest.length ?_ rest rfl)
        simp only [List.length_append, List.length_cons] at hn
        omega
      · exact unfinished bytes h

/-! ## What a drain publishes -/

variable {loads}

/-- A line that is not published does not end the loop. -/
theorem publishLines_skip {piece : Text} (h : strip piece = [] ∨ loads (strip piece) = .malformed)
    (lines : List Text) : publishLines loads (piece :: lines) = publishLines loads lines := by
  rw [publishLines]
  rcases h with hblank | hmalformed
  · exact if_pos hblank
  · by_cases hblank : strip piece = []
    · exact if_pos hblank
    · simp only [if_neg hblank, hmalformed]

theorem publishLines_skips {pieces : List Text}
    (h : ∀ piece ∈ pieces, strip piece = [] ∨ loads (strip piece) = .malformed)
    (lines : List Text) : publishLines loads (pieces ++ lines) = publishLines loads lines := by
  induction pieces with
  | nil => rfl
  | cons piece pieces ih =>
      obtain ⟨hpiece, hrest⟩ := List.forall_mem_cons.mp h
      rw [List.cons_append, publishLines_skip hpiece, ih hrest]

/-- A plain line is published if it is JSON, and then the next one follows. -/
theorem PlainLine.publishLines_eq {line : Bytes} (h : PlainLine loads line) (lines : List Text) :
    publishLines loads (splitlines (decode line ++ ['\n']) ++ lines) =
      (if IsJson loads line then [decode line] else []) ++ publishLines loads lines := by
  by_cases hjson : IsJson loads line
  · have hstrip := h.stripped hjson
    rw [if_pos hjson, splitlines_one (h.unbroken hjson)]
    simp only [List.cons_append, List.nil_append, publishLines, hstrip, if_neg hjson.2.1,
      h.object hjson]
  · rw [if_neg hjson, publishLines_skips (h.other hjson)]
    rfl

/-- **Whole plain lines are published**: those that are JSON, in their order, as they are. -/
theorem publishLines_decode {bytes : Bytes} (hwhole : WholeLines bytes)
    (hplain : ∀ line ∈ fileLines bytes, PlainLine loads line) :
    (publishLines loads (splitlines (decode bytes))).map encode = jsonLines loads bytes := by
  induction bytes using lines_induction with
  | unfinished bytes h =>
      rcases hwhole with rfl | hlast
      · rfl
      · exact absurd (List.mem_of_getLast? hlast) h
  | line line bytes h ih =>
      rw [fileLines_line h, List.forall_mem_cons] at hplain
      have hrest : WholeLines bytes := by
        rcases hwhole with hnil | hlast
        · simp at hnil
        · cases bytes with
          | nil => exact .inl rfl
          | cons b bytes => exact .inr (by simpa using hlast)
      have ih := ih hrest hplain.2
      -- a newline ends a line of the file and one of `splitlines`
      rw [decode_newline, splitlines_newline, hplain.1.publishLines_eq, List.map_append, ih,
        jsonLines, jsonLines, fileLines_line h]
      by_cases hjson : IsJson loads line
      · simp [hjson, hjson.1]
      · simp [hjson]

/-! ## Runs -/

theorem ConsumedLines.initial : ConsumedLines loads initial :=
  ⟨le_rfl, .inl rfl, rfl⟩

theorem ConsumedLines.append {s : State} (h : ConsumedLines loads s) (bytes : Bytes) :
    ConsumedLines loads { s with file := s.file ++ bytes } := by
  have htake : (s.file ++ bytes).take s.offset = s.file.take s.offset :=
    List.take_append_of_le_length h.within
  refine ⟨?_, ?_, ?_⟩
  · exact h.within.trans (by simp)
  · show WholeLines ((s.file ++ bytes).take s.offset)
    rw [htake]
    exact h.whole
  · show s.published.map encode = jsonLines loads ((s.file ++ bytes).take s.offset)
    rw [htake]
    exact h.published

/-- A drain reads up to the end of the file. -/
theorem offset_drainEvents {s : State} (h : s.offset ≤ s.file.length) :
    (drainEvents loads s).offset = s.file.length := by
  simp only [drainEvents, readNewLines]
  split_ifs with hdata
  · have hend : s.file.length ≤ s.offset := List.drop_eq_nil_iff.mp hdata
    exact le_antisymm h hend
  · simp only [List.length_drop]
    omega

/-- **A clean drain consumes whole lines.** -/
theorem ConsumedLines.drain {s : State} (h : ConsumedLines loads s)
    (hclean : Clean loads s .drain) : ConsumedLines loads (drainEvents loads s) := by
  obtain ⟨hwhole, hplain⟩ := hclean
  have hoffset := @offset_drainEvents loads _ h.within
  have hfile : (drainEvents loads s).file = s.file := rfl
  have hsplit : s.file.take s.offset ++ s.file.drop s.offset = s.file := List.take_append_drop _ _
  have hnew : (drainEvents loads s).published =
      s.published ++ publishLines loads (splitlines (decode (s.file.drop s.offset))) := by
    simp only [drainEvents, readNewLines]
    split_ifs with hdata
    · rw [hdata]
      rfl
    · rfl
  refine ⟨?_, ?_, ?_⟩
  · rw [hoffset, hfile]
  · rw [hoffset, hfile, List.take_length, ← hsplit]
    exact h.whole.append hwhole
  · rw [hoffset, hfile, List.take_length, hnew, List.map_append, h.published,
      publishLines_decode hwhole hplain, ← jsonLines_append loads h.whole, hsplit]

theorem ConsumedLines.step {s s' : State} {e : Event} (h : ConsumedLines loads s)
    (hclean : Clean loads s e) (hstep : step loads s e = some s') : ConsumedLines loads s' := by
  cases e with
  | append bytes =>
      cases hstep
      exact h.append bytes
  | drain =>
      cases hstep
      exact h.drain hclean
  | unreadable =>
      cases hstep
      exact h

/-- **When every drain finds whole plain lines**, whole lines are consumed, and after a drain
the JSON lines of the file have been published, once, in order and unchanged. -/
theorem clean_publishes {es : List Event} {s : State}
    (hclean : Along (step loads) (Clean loads) initial es)
    (hrun : run (step loads) initial es = some s) :
    ConsumedLines loads s ∧
      (es.getLast? = some .drain → s.published.map encode = jsonLines loads s.file) := by
  have hinv : ∀ {fs : List Event} {t : State}, Along (step loads) (Clean loads) initial fs →
      run (step loads) initial fs = some t → ConsumedLines loads t :=
    run_along_invariant (fun s e s' hs hcond hstep => hs.step hcond hstep) .initial
  refine ⟨hinv hclean hrun, fun hlast => ?_⟩
  obtain ⟨fs, rfl⟩ := List.getLast?_eq_some_iff.mp hlast
  obtain ⟨t, hfs, hdrain⟩ := (run_append (step loads)).mp hrun
  have hs : drainEvents loads t = s := by simpa [run, step] using hdrain
  -- the last drain has read up to the end of the file
  have hend := (hinv hclean hrun).published
  rwa [← hs, offset_drainEvents (hinv hclean.left hfs).within,
    show t.file.length = (drainEvents loads t).file.length from rfl, List.take_length, hs] at hend

/-! ## Two runs -/

/-- `json.loads` of a text that is an empty object or half of one. -/
def loadsBraces (t : Text) : Loaded :=
  if t.head? = some '{' ∧ t.getLast? = some '}' then .object else .malformed

/-- Two lines, the first one written in two pieces, with drains between them that find a
line, nothing, and no file that can be read. -/
def wholeRun : List Event :=
  [.append [0x7B], .append [0x7D, newline], .drain, .drain, .append [0x7B, 0x7D, newline],
    .unreadable, .drain]

/-- A drain within the line, and one after it. -/
def tornRun : List Event := [.append [0x7B], .drain, .append [0x7D, newline], .drain]

/-- A drain is clean if it finds nothing, or one whole line that is an object. -/
theorem clean_braces {s : State}
    (h : s.file.drop s.offset = [] ∨ s.file.drop s.offset = [0x7B, 0x7D, newline]) :
    Clean loadsBraces s .drain := by
  have hunbroken : ∀ c ∈ decode [0x7B, 0x7D], isLineBreak c = false := by
    have hbraces : decode [0x7B, 0x7D] = ['{', '}'] := by decide
    rw [hbraces]
    simp [isLineBreak, lineBreaks]
  have hplain : PlainLine loadsBraces [0x7B, 0x7D] :=
    ⟨by decide, by decide, fun _ => hunbroken, fun h => absurd (by decide) h⟩
  rcases h with hnil | hline
  · refine ⟨.inl hnil, fun line hmem => ?_⟩
    rw [hnil, fileLines_of_notMem List.not_mem_nil] at hmem
    cases hmem
  · refine ⟨.inr (by rw [hline]; rfl), fun line hmem => ?_⟩
    have hlines : fileLines [0x7B, 0x7D, newline] = [[0x7B, 0x7D]] := by decide
    rw [hline, hlines] at hmem
    obtain rfl := List.mem_singleton.mp hmem
    exact hplain

/-- Both lines are published, each once and in their order. -/
theorem wholeRun_publishes :
    ConsumedLines loadsBraces
        ⟨[0x7B, 0x7D, newline, 0x7B, 0x7D, newline], 6, [['{', '}'], ['{', '}']]⟩ ∧
      (wholeRun.getLast? = some .drain → [['{', '}'], ['{', '}']].map encode =
        jsonLines loadsBraces [0x7B, 0x7D, newline, 0x7B, 0x7D, newline]) := by
  refine @clean_publishes loadsBraces wholeRun
    ⟨[0x7B, 0x7D, newline, 0x7B, 0x7D, newline], 6, [['{', '}'], ['{', '}']]⟩ ?_ (by rfl)
  -- the two drains that read a line, and the one between them
  have hfirst : Clean loadsBraces ⟨[0x7B, 0x7D, newline], 0, []⟩ .drain :=
    clean_braces (.inr rfl)
  have hnothing : Clean loadsBraces ⟨[0x7B, 0x7D, newline], 3, [['{', '}']]⟩ .drain :=
    clean_braces (.inl rfl)
  have hsecond : Clean loadsBraces
      ⟨[0x7B, 0x7D, newline, 0x7B, 0x7D, newline], 3, [['{', '}']]⟩ .drain :=
    clean_braces (.inr rfl)
  have hread : step loadsBraces ⟨[0x7B, 0x7D, newline], 0, []⟩ .drain =
      some ⟨[0x7B, 0x7D, newline], 3, [['{', '}']]⟩ := by rfl
  exact (along_cons _ rfl _).mpr ⟨trivial, (along_cons _ rfl _).mpr ⟨trivial,
    (along_cons _ hread _).mpr ⟨hfirst, (along_cons _ rfl _).mpr ⟨hnothing,
      (along_cons _ rfl _).mpr ⟨trivial, (along_cons _ rfl _).mpr ⟨trivial,
        hsecond, fun _ _ => trivial⟩⟩⟩⟩⟩⟩

/-- The line is in the file and was never published. -/
theorem tornRun_loses :
    ∃ s, run (step loadsBraces) initial tornRun = some s ∧
      s.published = [] ∧ jsonLines loadsBraces s.file = [[0x7B, 0x7D]] :=
  ⟨⟨[0x7B, 0x7D, newline], 3, []⟩, by rfl, rfl, by decide⟩

end BridgeAdapter

end AkronSlot.Slot
