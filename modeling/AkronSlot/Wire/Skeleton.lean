import AkronSlot.Wire.Chunks
import AkronSlot.Wire.JsonGrammar

/-!
# What a cut within a character leaves alone

A chunk that ends within a character decodes to replacement characters where that
character was.  All else stays: two texts are `Alike` when they have the same
ASCII characters and the same places for others between them.  JSON is ASCII
outside its string literals, so a text that is alike to JSON is JSON.

## How it is used

A cut replaces one character by several replacement characters. The skeleton forgets how many,
so it is the same for the text that was sent and for the one that is read. Every function of the
parser that looks at a character looks for an ASCII one or copies what it sees, and the lemmas
follow the parser through its functions. What is left is the length, and it tells whether the
text was cut at all.

## Main Definitions

* `skeleton`, `Alike`

## Main Results

* `Utf8.alike_decodeAll` — the text that is decoded chunk by chunk is alike to the
  text of all the bytes
* `Json.parse_alike` — texts that are alike are JSON together, and of one value only
  if they are of one length
* `Utf8.uncut_of_length`
-/

namespace Wire

/-! ## Skeletons -/

/-- An ASCII character. -/
def Narrow (c : Char) : Prop := c.toNat < 0x80

instance decidableNarrow (c : Char) : Decidable (Narrow c) :=
  inferInstanceAs (Decidable (c.toNat < 0x80))

theorem not_narrow_replacement : ¬ Narrow Utf8.replacement := by decide

/-- Put a character in front of a skeleton.  Characters outside ASCII that follow
each other have one place. -/
def glue (c : Char) (s : Text) : Text :=
  if Narrow c then c :: s
  else if s.head? = some Utf8.replacement then s
  else Utf8.replacement :: s

/-- A text with one replacement character for each stretch outside ASCII. -/
def skeleton : Text → Text
  | [] => []
  | c :: t => glue c (skeleton t)

/-- The texts differ only in what they have outside ASCII. A stretch of such characters in one is
a stretch in the other, of any length but none. -/
def Alike (s t : Text) : Prop := skeleton s = skeleton t

namespace Alike

variable {s t u : Text} {c d : Char}

theorem refl (t : Text) : Alike t t := rfl

theorem symm (h : Alike s t) : Alike t s := Eq.symm h

theorem trans (h : Alike s t) (h' : Alike t u) : Alike s u := Eq.trans h h'

theorem cons (c : Char) (h : Alike s t) : Alike (c :: s) (c :: t) := congrArg (glue c) h

theorem append_left (u : Text) (h : Alike s t) : Alike (u ++ s) (u ++ t) := by
  induction u with
  | nil => exact h
  | cons c u ih => exact ih.cons c

end Alike

theorem skeleton_narrow {c : Char} (h : Narrow c) (t : Text) :
    skeleton (c :: t) = c :: skeleton t :=
  if_pos h

/-- A stretch outside ASCII is one place, whatever it holds. -/
theorem skeleton_wide {c : Char} (h : ¬ Narrow c) (t : Text) :
    skeleton (c :: t) = Utf8.replacement :: skeleton (t.dropWhile fun c => !decide (Narrow c)) := by
  induction t generalizing c with
  | nil => simp [skeleton, glue, h]
  | cons d t ih =>
      rw [skeleton, glue, if_neg h]
      by_cases hd : Narrow d
      · have hhead : (skeleton (d :: t)).head? ≠ some Utf8.replacement := by
          rw [skeleton_narrow hd]
          rintro heq
          exact not_narrow_replacement ((Option.some.inj heq) ▸ hd)
        rw [if_neg hhead, List.dropWhile_cons_of_neg (by simpa using hd)]
      · rw [ih hd, List.head?_cons, if_pos rfl, List.dropWhile_cons_of_pos (by simpa using hd)]

theorem skeleton_ne_nil (c : Char) (t : Text) : skeleton (c :: t) ≠ [] := by
  by_cases hc : Narrow c
  · simp [skeleton_narrow hc]
  · simp [skeleton_wide hc]

namespace Alike

theorem nil {t : Text} (h : Alike [] t) : t = [] := by
  cases t with
  | nil => rfl
  | cons c t => exact absurd h.symm (skeleton_ne_nil c t)

/-- An ASCII character is in both texts. -/
theorem narrow {c : Char} {s t : Text} (h : Alike (c :: s) t) (hc : Narrow c) :
    ∃ r, t = c :: r ∧ Alike s r := by
  have heq : c :: skeleton s = skeleton t := (skeleton_narrow hc s).symm.trans h
  cases t with
  | nil => cases heq
  | cons d r =>
      by_cases hd : Narrow d
      · rw [skeleton_narrow hd] at heq
        obtain ⟨rfl, htail⟩ := List.cons.inj heq
        exact ⟨r, rfl, htail⟩
      · rw [skeleton_wide hd] at heq
        exact absurd ((List.cons.inj heq).1 ▸ hc) not_narrow_replacement

/-- A character outside ASCII has one in its place. -/
theorem wide {c : Char} {s t : Text} (h : Alike (c :: s) t) (hc : ¬ Narrow c) :
    ∃ d r, t = d :: r ∧ ¬ Narrow d := by
  have heq := (skeleton_wide hc s).symm.trans h
  cases t with
  | nil => cases heq
  | cons d r =>
      refine ⟨d, r, rfl, fun hd => ?_⟩
      rw [skeleton_narrow hd] at heq
      exact not_narrow_replacement ((List.cons.inj heq).1 ▸ hd)

/-- **Two stretches outside ASCII**: the first one goes on where the second one
does, or it ends and the texts go on alike after both. -/
theorem stretch {c : Char} {s t : Text} (h : Alike (c :: s) t) (hc : ¬ Narrow c) :
    Alike s t ∨ ∃ w r, t = w ++ r ∧ w ≠ [] ∧ (∀ d ∈ w, ¬ Narrow d) ∧ Alike s r := by
  obtain ⟨d, t, rfl, hd⟩ := h.wide hc
  by_cases hs : ∃ c' s', s = c' :: s' ∧ ¬ Narrow c'
  · -- the stretch goes on
    obtain ⟨c', s', rfl, hc'⟩ := hs
    refine .inl (Eq.trans ?_ h)
    rw [skeleton_wide hc, List.dropWhile_cons_of_pos (by simpa using hc'), skeleton_wide hc']
  · have hwhole : s.dropWhile (fun c => !decide (Narrow c)) = s := by
      cases s with
      | nil => rfl
      | cons c' s' =>
          refine List.dropWhile_cons_of_neg ?_
          by_contra hc'
          exact hs ⟨c', s', rfl, by simpa using hc'⟩
    have heq := h
    rw [Alike, skeleton_wide hc, skeleton_wide hd, hwhole] at heq
    refine .inr ⟨d :: t.takeWhile (fun c => !decide (Narrow c)), _, ?_, by simp, ?_,
      (List.cons.inj heq).2⟩
    · rw [List.cons_append, List.takeWhile_append_dropWhile]
    · intro e he
      rcases List.mem_cons.mp he with rfl | he
      · exact hd
      · simpa using List.mem_takeWhile_imp he

/-- A stretch may get longer. -/
theorem grow {c d : Char} {s t : Text} (h : Alike (c :: s) t) (hc : ¬ Narrow c)
    (hd : ¬ Narrow d) : Alike (d :: c :: s) t := by
  refine Eq.trans ?_ h
  rw [skeleton_wide hd, List.dropWhile_cons_of_pos (by simpa using hc), skeleton_wide hc]

/-- A stretch in the place of another. -/
theorem swap {c d : Char} (hc : ¬ Narrow c) (hd : ¬ Narrow d) (t : Text) :
    Alike (c :: t) (d :: t) := by
  rw [Alike, skeleton_wide hc, skeleton_wide hd]

end Alike

/-! ## Cuts -/

namespace Utf8

/-- The characters that an unfinished one can still become are scalar values. -/
def Partial.Scalar (p : Partial) : Prop :=
  (p.bits * 64 + (p.high - 0x80) + 1) * 64 ^ p.more ≤ 0xD800 ∨
    (0xE000 ≤ (p.bits * 64 + (p.low - 0x80)) * 64 ^ p.more ∧
      (p.bits * 64 + (p.high - 0x80) + 1) * 64 ^ p.more ≤ 0x110000)

theorem lead_scalar {b : ℕ} {p : Partial} (h : lead b = some p) : p.Scalar := by
  unfold lead at h
  split_ifs at h
  all_goals
    obtain rfl := Option.some.inj h
    simp only [Partial.Scalar, pow_zero, pow_one, mul_one]
    omega

/-- A byte that continues a scalar value completes it or leaves it unfinished. -/
theorem feed_scalar {p : Partial} (hp : p.Scalar) {b : UInt8}
    (h : p.low ≤ b.toNat ∧ b.toNat ≤ p.high) :
    (∃ c, feed (some p) b = ([c], none) ∧ ¬ Narrow c) ∨
      ∃ q, feed (some p) b = ([], some q) ∧ q.Bounded ∧ q.Scalar := by
  have hlow := p.le_extend h.1
  have hhigh : p.extend b.toNat + 1 ≤ p.bits * 64 + (p.high - 0x80) + 1 := by
    unfold Partial.extend
    omega
  rw [feed, dif_pos h]
  unfold Partial.next
  split
  · next hmore =>
      -- the last byte: the value is valid and beyond ASCII
      have hbeyond := p.beyond_ascii
      simp only [Partial.Scalar, hmore, pow_zero, mul_one] at hp hbeyond
      have hvalid : (p.extend b.toNat).isValidChar := by
        unfold Nat.isValidChar
        omega
      refine .inl ⟨_, rfl, ?_⟩
      rw [Narrow, Char.toNat_ofNat, if_pos hvalid]
      omega
  · next k hmore =>
      -- the lead byte bounds the value whatever bytes follow
      refine .inr ⟨_, rfl, le_rfl, ?_⟩
      have hpow : 64 ^ p.more = 64 * 64 ^ k := by rw [hmore, Nat.pow_succ, Nat.mul_comm]
      have hleft := Nat.mul_le_mul_right (64 ^ p.more) hlow
      have hright := Nat.mul_le_mul_right (64 ^ p.more) hhigh
      have hlast : (p.extend b.toNat * 64 + (0xBF - 0x80) + 1) * 64 ^ k =
          (p.extend b.toNat + 1) * 64 ^ p.more := by
        rw [hpow]
        ring
      have hfirst : (p.extend b.toNat * 64 + (0x80 - 0x80)) * 64 ^ k =
          p.extend b.toNat * 64 ^ p.more := by
        rw [hpow]
        ring
      simp only [Partial.Scalar, hlast, hfirst]
      unfold Partial.Scalar at hp
      omega

theorem start_scalar {b : UInt8} {p : Partial} (h : (start b).2 = some p) : p.Scalar := by
  unfold start at h
  split at h
  · simp at h
  · split at h
    · simp at h
    · next q hq =>
        obtain rfl := Option.some.inj h
        exact lead_scalar hq

theorem scan_scalar {bs : Bytes} {p : Partial} (h : (scan none bs).2 = some p) : p.Scalar := by
  induction bs using List.reverseRecOn generalizing p with
  | nil => simp at h
  | append_singleton bs b ih =>
      rw [scan_append] at h
      have hfeed : (feed (scan none bs).2 b).2 = some p := h
      cases hq : (scan none bs).2 with
      | none =>
          rw [hq] at hfeed
          exact start_scalar hfeed
      | some q =>
          rw [hq] at hfeed
          by_cases hin : q.low ≤ b.toNat ∧ b.toNat ≤ q.high
          · rcases feed_scalar (ih hq) hin with ⟨c, hc, -⟩ | ⟨r, hr, -, hscalar⟩
            · simp [hc] at hfeed
            · rw [hr] at hfeed
              exact Option.some.inj hfeed ▸ hscalar
          · rw [feed_beyond hin] at hfeed
            exact start_scalar hfeed

/-- An unfinished character and what follows it, decoded on their own, are alike to
what they are together. -/
theorem alike_finish {p : Partial} (hbounded : p.Bounded) (hscalar : p.Scalar) (bs : Bytes) :
    Alike (replacement :: decode bs) (finish (some p) bs) := by
  induction bs generalizing p with
  | nil => exact .refl _
  | cons b bs ih =>
      rw [finish_cons]
      by_cases hin : p.low ≤ b.toNat ∧ b.toNat ≤ p.high
      · -- on its own, the byte is a replacement
        have hstart := start_continuation (p.continuation.trans hin.1) (hin.2.trans hbounded)
        have hdecode : decode (b :: bs) = replacement :: decode bs := by
          rw [decode_cons, hstart]
          rfl
        rw [hdecode]
        rcases feed_scalar hscalar hin with ⟨c, hc, hwide⟩ | ⟨q, hq, hbounded', hscalar'⟩
        · rw [hc]
          exact (Alike.swap not_narrow_replacement hwide _).grow not_narrow_replacement
            not_narrow_replacement
        · rw [hq]
          exact (ih hbounded' hscalar').grow not_narrow_replacement not_narrow_replacement
      · rw [feed_beyond hin, decode_cons]
        exact .refl _

theorem alike_decode_append (as bs : Bytes) :
    Alike (decode as ++ decode bs) (decode (as ++ bs)) := by
  rw [decode_append_finish]
  cases h : (scan none as).2 with
  | none => simpa [decode, finish, h] using Alike.refl _
  | some p =>
      have has : decode as ++ decode bs = (scan none as).1 ++ replacement :: decode bs := by
        simp [decode, h, flush]
      rw [has]
      exact (alike_finish (scan_bounded h) (scan_scalar h) bs).append_left _

/-- **Cuts leave the ASCII characters alone.** -/
theorem alike_decodeAll (pieces : List Bytes) :
    Alike (decodeAll pieces) (decode pieces.flatten) := by
  induction pieces with
  | nil => exact .refl _
  | cons piece pieces ih =>
      exact (ih.append_left (decode piece)).trans (alike_decode_append piece pieces.flatten)

end Utf8

/-! ## Numerals and string literals -/

theorem narrow_of_digitOf? {c : Char} {d : Digit} (h : digitOf? c = some d) : Narrow c := by
  unfold digitOf? at h
  split at h
  · next hc =>
      have hnine : '9'.toNat = 57 := rfl
      have hle := hc.2
      unfold Narrow
      omega
  · cases h

theorem digitOf?_of_wide {c : Char} (h : ¬ Narrow c) : digitOf? c = none := by
  cases hc : digitOf? c with
  | none => rfl
  | some d => exact absurd (narrow_of_digitOf? hc) h

namespace Alike

variable {t r : Text}

/-- The texts start with the same ASCII characters. -/
theorem head?_iff (h : Alike t r) {c : Char} (hc : Narrow c) :
    t.head? = some c ↔ r.head? = some c := by
  constructor
  · intro ht
    obtain ⟨t, rfl⟩ := List.head?_eq_some_iff.mp ht
    obtain ⟨r, rfl, -⟩ := h.narrow hc
    rfl
  · intro hr
    obtain ⟨r, rfl⟩ := List.head?_eq_some_iff.mp hr
    obtain ⟨t, rfl, -⟩ := h.symm.narrow hc
    rfl

theorem digitRun (h : Alike t r) :
    (Wire.digitRun t).1 = (Wire.digitRun r).1 ∧ Alike (Wire.digitRun t).2 (Wire.digitRun r).2 := by
  induction t generalizing r with
  | nil =>
      obtain rfl := h.nil
      exact ⟨rfl, .refl _⟩
  | cons c t ih =>
      by_cases hc : Narrow c
      · obtain ⟨r, rfl, htail⟩ := h.narrow hc
        obtain ⟨hdigits, hrest⟩ := ih htail
        rw [Wire.digitRun, Wire.digitRun]
        cases hdigit : digitOf? c with
        | none => exact ⟨rfl, h⟩
        | some d => exact ⟨congrArg (d :: ·) hdigits, hrest⟩
      · obtain ⟨d, r, rfl, hd⟩ := h.wide hc
        rw [Wire.digitRun, Wire.digitRun, digitOf?_of_wide hc, digitOf?_of_wide hd]
        exact ⟨rfl, h⟩

end Alike

section Numerals

variable {t r u : Text}

theorem scanWhole_alike {w : Whole} (h : scanWhole t = some (w, u)) (ha : Alike t r) :
    ∃ u', scanWhole r = some (w, u') ∧ Alike u u' := by
  unfold scanWhole at h
  split at h
  · cases h
  · next c t =>
      split at h
      · cases h
      · next hc =>
          obtain ⟨rfl, rfl⟩ := Prod.mk.inj (Option.some.inj h)
          obtain ⟨r, rfl, htail⟩ := ha.narrow (narrow_of_digitOf? hc)
          exact ⟨r, by simp only [scanWhole, hc], htail⟩
      · next d hd hc =>
          obtain ⟨rfl, rfl⟩ := Prod.mk.inj (Option.some.inj h)
          obtain ⟨r, rfl, htail⟩ := ha.narrow (narrow_of_digitOf? hc)
          obtain ⟨hdigits, hrest⟩ := htail.digitRun
          exact ⟨_, by simp only [scanWhole, hc, hdigits], hrest⟩

theorem scanFrac_none (h : t.head? ≠ some '.') : scanFrac t = some ([], t) := by
  unfold scanFrac
  split
  · simp at h
  · rfl

theorem scanFrac_alike {ds : List Digit} (h : scanFrac t = some (ds, u)) (ha : Alike t r) :
    ∃ u', scanFrac r = some (ds, u') ∧ Alike u u' := by
  by_cases hdot : t.head? = some '.'
  · obtain ⟨t, rfl⟩ := List.head?_eq_some_iff.mp hdot
    obtain ⟨r, rfl, htail⟩ := ha.narrow (by decide)
    obtain ⟨hdigits, hrest⟩ := htail.digitRun
    simp only [scanFrac] at h ⊢
    split at h
    · cases h
    · next ds' t' hne heq =>
        obtain ⟨rfl, rfl⟩ := Prod.mk.inj (Option.some.inj h)
        rw [heq] at hdigits hrest
        cases hrun : digitRun r with
        | mk es w =>
            rw [hrun] at hdigits hrest
            obtain rfl : ds' = es := hdigits
            cases ds' with
            | nil => exact absurd rfl hne
            | cons d ds => exact ⟨w, rfl, hrest⟩
  · have hdot' : r.head? ≠ some '.' := fun hr => hdot ((ha.head?_iff (by decide)).mpr hr)
    rw [scanFrac_none hdot] at h
    obtain ⟨rfl, rfl⟩ := Prod.mk.inj (Option.some.inj h)
    exact ⟨r, scanFrac_none hdot', ha⟩

theorem scanExpSign_none (hminus : t.head? ≠ some '-') (hplus : t.head? ≠ some '+') :
    scanExpSign t = (none, t) := by
  unfold scanExpSign
  split
  · simp at hminus
  · simp at hplus
  · rfl

theorem scanExpSign_alike (ha : Alike t r) :
    (scanExpSign t).1 = (scanExpSign r).1 ∧ Alike (scanExpSign t).2 (scanExpSign r).2 := by
  by_cases hminus : t.head? = some '-'
  · obtain ⟨t, rfl⟩ := List.head?_eq_some_iff.mp hminus
    obtain ⟨r, rfl, htail⟩ := ha.narrow (by decide)
    exact ⟨rfl, htail⟩
  · by_cases hplus : t.head? = some '+'
    · obtain ⟨t, rfl⟩ := List.head?_eq_some_iff.mp hplus
      obtain ⟨r, rfl, htail⟩ := ha.narrow (by decide)
      exact ⟨rfl, htail⟩
    · have hminus' : r.head? ≠ some '-' := fun hr => hminus ((ha.head?_iff (by decide)).mpr hr)
      have hplus' : r.head? ≠ some '+' := fun hr => hplus ((ha.head?_iff (by decide)).mpr hr)
      rw [scanExpSign_none hminus hplus, scanExpSign_none hminus' hplus']
      exact ⟨rfl, ha⟩

theorem scanExpDigits_alike {upper : Bool} {e : Option Exponent}
    (h : scanExpDigits upper t = some (e, u)) (ha : Alike t r) :
    ∃ u', scanExpDigits upper r = some (e, u') ∧ Alike u u' := by
  obtain ⟨hsign, hafter⟩ := scanExpSign_alike ha
  obtain ⟨hdigits, hrest⟩ := hafter.digitRun
  unfold scanExpDigits at h ⊢
  split at h
  · cases h
  · next d ds t' heq =>
      obtain ⟨rfl, rfl⟩ := Prod.mk.inj (Option.some.inj h)
      rw [heq] at hdigits hrest
      cases hrun : digitRun (scanExpSign r).2 with
      | mk es w =>
          rw [hrun] at hdigits hrest
          obtain rfl : d :: ds = es := hdigits
          exact ⟨w, by rw [hsign], hrest⟩

theorem scanExp_none (hlower : t.head? ≠ some 'e') (hupper : t.head? ≠ some 'E') :
    scanExp t = some (none, t) := by
  unfold scanExp
  split
  · simp at hlower
  · simp at hupper
  · rfl

theorem scanExp_alike {e : Option Exponent} (h : scanExp t = some (e, u)) (ha : Alike t r) :
    ∃ u', scanExp r = some (e, u') ∧ Alike u u' := by
  by_cases hlower : t.head? = some 'e'
  · obtain ⟨t, rfl⟩ := List.head?_eq_some_iff.mp hlower
    obtain ⟨r, rfl, htail⟩ := ha.narrow (by decide)
    exact @scanExpDigits_alike _ _ _ false _ h htail
  · by_cases hupper : t.head? = some 'E'
    · obtain ⟨t, rfl⟩ := List.head?_eq_some_iff.mp hupper
      obtain ⟨r, rfl, htail⟩ := ha.narrow (by decide)
      exact @scanExpDigits_alike _ _ _ true _ h htail
    · have hlower' : r.head? ≠ some 'e' := fun hr => hlower ((ha.head?_iff (by decide)).mpr hr)
      have hupper' : r.head? ≠ some 'E' := fun hr => hupper ((ha.head?_iff (by decide)).mpr hr)
      rw [scanExp_none hlower hupper] at h
      obtain ⟨rfl, rfl⟩ := Prod.mk.inj (Option.some.inj h)
      exact ⟨r, scanExp_none hlower' hupper', ha⟩

theorem scanUnsigned_alike {neg : Bool} {m : Numeral} (h : scanUnsigned neg t = some (m, u))
    (ha : Alike t r) : ∃ u', scanUnsigned neg r = some (m, u') ∧ Alike u u' := by
  rw [scanUnsigned, Option.bind_eq_some_iff] at h
  obtain ⟨⟨w, t₁⟩, hw, h⟩ := h
  rw [Option.bind_eq_some_iff] at h
  obtain ⟨⟨ds, t₂⟩, hds, h⟩ := h
  obtain ⟨⟨e, t₃⟩, he, heq⟩ := Option.map_eq_some_iff.mp h
  obtain ⟨rfl, rfl⟩ := Prod.mk.inj heq
  obtain ⟨r₁, hw', ha₁⟩ := scanWhole_alike hw ha
  obtain ⟨r₂, hds', ha₂⟩ := scanFrac_alike hds ha₁
  obtain ⟨r₃, he', ha₃⟩ := scanExp_alike he ha₂
  exact ⟨r₃, by simp [scanUnsigned, hw', hds', he'], ha₃⟩

theorem scanNumeral_none (h : t.head? ≠ some '-') : scanNumeral t = scanUnsigned false t := by
  unfold scanNumeral
  split
  · simp at h
  · rfl

/-- **A numeral is scanned from any text that is alike.** -/
theorem scanNumeral_alike {m : Numeral} (h : scanNumeral t = some (m, u)) (ha : Alike t r) :
    ∃ u', scanNumeral r = some (m, u') ∧ Alike u u' := by
  by_cases hminus : t.head? = some '-'
  · obtain ⟨t, rfl⟩ := List.head?_eq_some_iff.mp hminus
    obtain ⟨r, rfl, htail⟩ := ha.narrow (by decide)
    exact @scanUnsigned_alike _ _ _ true _ h htail
  · have hminus' : r.head? ≠ some '-' := fun hr => hminus ((ha.head?_iff (by decide)).mpr hr)
    rw [scanNumeral_none hminus] at h
    rw [scanNumeral_none hminus']
    exact scanUnsigned_alike h ha

end Numerals

section Bodies

theorem readBody_verbatim_char (q : Option ℕ) {c : Char} (h : Plain c) (t : Text) :
    readBody q (c :: t) = before (loneText q ++ [c]) (readBody none t) := by
  obtain ⟨hquote, hslash, hctrl⟩ := h
  rw [readBody]
  · simp [Nat.not_lt.mpr hctrl]
  · exact hquote
  · intro _ _ _ _ _ hc
    exact absurd hc hslash
  · intro _ _ hc
    exact absurd hc hslash

theorem plain_of_wide {c : Char} (h : ¬ Narrow c) : Plain c := by
  have hlow : ∀ d : Char, Narrow d → c ≠ d := by
    rintro d hd rfl
    exact h hd
  refine ⟨hlow _ (by decide), hlow _ (by decide), ?_⟩
  unfold Narrow at h
  omega

/-- A stretch outside ASCII is read as it is. -/
theorem readBody_stretch (q : Option ℕ) {w : Text} (hw : w ≠ []) (hwide : ∀ d ∈ w, ¬ Narrow d)
    (t : Text) : readBody q (w ++ t) = before (loneText q ++ w) (readBody none t) := by
  induction w generalizing q with
  | nil => exact absurd rfl hw
  | cons c w ih =>
      rw [List.forall_mem_cons] at hwide
      rw [List.cons_append, readBody_verbatim_char q (plain_of_wide hwide.1)]
      cases w with
      | nil => rfl
      | cons d w =>
          rw [ih none (by simp) hwide.2]
          cases readBody none t with
          | none => rfl
          | some p => simp [before, loneText]

theorem narrow_of_hexValue? {c : Char} {n : ℕ} (h : hexValue? c = some n) : Narrow c := by
  have hnine : '9'.toNat = 57 := rfl
  have hlower : 'f'.toNat = 102 := rfl
  have hupper : 'F'.toNat = 70 := rfl
  unfold hexValue? at h
  unfold Narrow
  split_ifs at h <;> omega

theorem narrow_of_codeUnit? {a b c d : Char} {u : ℕ} (h : codeUnit? a b c d = some u) :
    Narrow a ∧ Narrow b ∧ Narrow c ∧ Narrow d := by
  simp only [codeUnit?, Option.bind_eq_some_iff, Option.map_eq_some_iff] at h
  obtain ⟨_, ha, _, hb, _, hc, _, hd, -⟩ := h
  exact ⟨narrow_of_hexValue? ha, narrow_of_hexValue? hb, narrow_of_hexValue? hc,
    narrow_of_hexValue? hd⟩

/-- A text that is alike has the same `\uXXXX` in front. -/
theorem Alike.unitEscape {a b c d : Char} {u : ℕ} {t r : Text} (hu : codeUnit? a b c d = some u)
    (h : Alike ('\\' :: 'u' :: a :: b :: c :: d :: t) r) :
    ∃ r', r = '\\' :: 'u' :: a :: b :: c :: d :: r' ∧ Alike t r' := by
  obtain ⟨ha, hb, hc, hd⟩ := narrow_of_codeUnit? hu
  obtain ⟨r₁, rfl, h₁⟩ := h.narrow (by decide)
  obtain ⟨r₂, rfl, h₂⟩ := h₁.narrow (by decide)
  obtain ⟨r₃, rfl, h₃⟩ := h₂.narrow ha
  obtain ⟨r₄, rfl, h₄⟩ := h₃.narrow hb
  obtain ⟨r₅, rfl, h₅⟩ := h₄.narrow hc
  obtain ⟨r₆, rfl, h₆⟩ := h₅.narrow hd
  exact ⟨r₆, rfl, h₆⟩

theorem narrow_of_shortEscape? {c x : Char} (h : shortEscape? c = some x) : Narrow c := by
  unfold shortEscape? at h
  split_ifs at h
  all_goals
    subst c
    decide

/-- What is read of two texts that are alike: they go on alike, and one of them is
longer by what its body is longer by. -/
def SameBody (t r : Text) (s u s' u' : Text) : Prop :=
  Alike u u' ∧ t.length + s'.length + u'.length = r.length + s.length + u.length

/-- **A string literal is read from any text that is alike.** -/
theorem readBody_alike {q : Option ℕ} {t r s u : Text} (h : readBody q t = some (s, u))
    (ha : Alike t r) : ∃ s' u', readBody q r = some (s', u') ∧ SameBody t r s u s' u' := by
  fun_induction readBody q t generalizing r s u with
  | case1 => cases h
  | case2 q t =>
      obtain ⟨rfl, rfl⟩ := Prod.mk.inj (Option.some.inj h)
      obtain ⟨r, rfl, htail⟩ := ha.narrow (by decide)
      refine ⟨_, r, rfl, htail, ?_⟩
      simp only [List.length_cons]
      omega
  | case3 => cases h
  | case4 q a b c d t u₀ hu hhigh ih =>
      obtain ⟨⟨s₁, u₁⟩, hbody, heq⟩ := Option.map_eq_some_iff.mp h
      obtain ⟨rfl, rfl⟩ := Prod.mk.inj heq
      -- a high surrogate is kept for the unit that follows
      obtain ⟨r, rfl, htail⟩ := ha.unitEscape hu
      obtain ⟨s', u', hread, hrest, hlength⟩ := ih hbody htail
      refine ⟨loneText q ++ s', u', by rw [readBody]; simp [hu, hhigh, hread], hrest, ?_⟩
      simp only [List.length_cons, List.length_append]
      omega
  | case5 q a b c d t u₀ hu hhigh ih =>
      obtain ⟨⟨s₁, u₁⟩, hbody, heq⟩ := Option.map_eq_some_iff.mp h
      obtain ⟨rfl, rfl⟩ := Prod.mk.inj heq
      obtain ⟨r, rfl, htail⟩ := ha.unitEscape hu
      obtain ⟨s', u', hread, hrest, hlength⟩ := ih hbody htail
      refine ⟨unitText q u₀ ++ s', u', by rw [readBody]; simp [hu, hhigh, hread], hrest, ?_⟩
      simp only [List.length_cons, List.length_append]
      omega
  | case6 => cases h
  | case7 q c t hnot x hx ih =>
      obtain ⟨⟨s₁, u₁⟩, hbody, heq⟩ := Option.map_eq_some_iff.mp h
      obtain ⟨rfl, rfl⟩ := Prod.mk.inj heq
      obtain ⟨r₁, rfl, ha₁⟩ := ha.narrow (by decide)
      obtain ⟨r₂, rfl, ha₂⟩ := ha₁.narrow (narrow_of_shortEscape? hx)
      obtain ⟨s', u', hread, hrest, hlength⟩ := ih hbody ha₂
      have hu : c ≠ 'u' := by
        rintro rfl
        cases hx
      refine ⟨loneText q ++ [x] ++ s', u', ?_, hrest, ?_⟩
      · rw [readBody]
        · simp [hx, hread]
        · intro _ _ _ _ _ hc
          exact absurd hc hu
      · simp only [List.length_cons, List.length_append]
        omega
  | case8 => cases h
  | case9 q c t hquote hunit hshort hlow ih =>
      obtain ⟨⟨s₁, u₁⟩, hbody, heq⟩ := Option.map_eq_some_iff.mp h
      obtain ⟨rfl, rfl⟩ := Prod.mk.inj heq
      have hslash : c ≠ '\\' := by
        rintro rfl
        cases t with
        | nil => cases hbody
        | cons d t => exact hshort d t rfl rfl
      have hplain : Plain c := ⟨fun hc => hquote hc, hslash, not_lt.mp hlow⟩
      -- a stretch of wide characters may stand for another one
      by_cases hc : Narrow c
      · obtain ⟨r, rfl, htail⟩ := ha.narrow hc
        obtain ⟨s', u', hread, hrest, hlength⟩ := ih hbody htail
        refine ⟨loneText q ++ [c] ++ s', u', ?_, hrest, ?_⟩
        · rw [readBody_verbatim_char q hplain, hread, before_some]
        · simp only [List.length_cons, List.length_append]
          omega
      · rcases ha.stretch hc with hon | ⟨w, r, rfl, hw, hwide, hrest⟩
        · -- the stretch goes on: what is read of it is put behind a lone surrogate
          obtain ⟨s', u', hread, hafter, hlength⟩ := ih hbody hon
          obtain ⟨d, r, rfl, hd⟩ := ha.wide hc
          have hfirst := readBody_verbatim_char none (plain_of_wide hd) r
          rw [hread] at hfirst
          cases hnext : readBody none r with
          | none => simp [hnext] at hfirst
          | some p =>
              rw [hnext, before_some] at hfirst
              obtain ⟨rfl, rfl⟩ := Prod.mk.inj (Option.some.inj hfirst)
              refine ⟨loneText q ++ [d] ++ p.1, p.2, ?_, hafter, ?_⟩
              · rw [readBody_verbatim_char q (plain_of_wide hd), hnext, before_some]
              · simp only [loneText, List.length_cons, List.length_append, List.length_nil]
                  at hlength ⊢
                omega
        · obtain ⟨s', u', hread, hafter, hlength⟩ := ih hbody hrest
          refine ⟨loneText q ++ w ++ s', u', ?_, hafter, ?_⟩
          · rw [readBody_stretch q hw hwide, hread, before_some]
          · simp only [List.length_cons, List.length_append, List.length_nil]
            omega

end Bodies

/-! ## Values -/

namespace Json

/-- As much has been read of one text as of the other. -/
def SameRead (t r u u' : Text) : Prop := t.length + u'.length = r.length + u.length

section Blanks

variable {t r : Text}

theorem narrow_of_isBlank {c : Char} (h : isBlank c = true) : Narrow c := by
  simp only [isBlank, Bool.or_eq_true, decide_eq_true_eq] at h
  rcases h with ((rfl | rfl) | rfl) | rfl <;> decide

theorem skipBlanks_alike (ha : Alike t r) :
    Alike (skipBlanks t) (skipBlanks r) ∧ SameRead t r (skipBlanks t) (skipBlanks r) := by
  induction t generalizing r with
  | nil =>
      obtain rfl := ha.nil
      exact ⟨.refl _, rfl⟩
  | cons c t ih =>
      by_cases hblank : isBlank c = true
      · obtain ⟨r, rfl, htail⟩ := ha.narrow (narrow_of_isBlank hblank)
        obtain ⟨hrest, hlength⟩ := ih htail
        have hskip : ∀ x, skipBlanks (c :: x) = skipBlanks x := fun x =>
          List.dropWhile_cons_of_pos hblank
        rw [hskip, hskip]
        refine ⟨hrest, ?_⟩
        simp only [SameRead, List.length_cons] at hlength ⊢
        omega
      · have hkeep := skipBlanks_cons (t := t) (by simpa using hblank)
        by_cases hc : Narrow c
        · obtain ⟨r, rfl, htail⟩ := ha.narrow hc
          rw [hkeep, skipBlanks_cons (by simpa using hblank)]
          exact ⟨ha, Nat.add_comm _ _⟩
        · obtain ⟨d, r, rfl, hd⟩ := ha.wide hc
          have hblank' : isBlank d = false := by
            by_contra hd'
            exact hd (narrow_of_isBlank (by simpa using hd'))
          rw [hkeep, skipBlanks_cons hblank']
          exact ⟨ha, Nat.add_comm _ _⟩

/-- An ASCII word after blanks is in both texts. -/
theorem skipBlanks_word {x : Text} (w : Text) (hw : ∀ c ∈ w, Narrow c)
    (h : skipBlanks t = w ++ x) (ha : Alike t r) :
    ∃ y, skipBlanks r = w ++ y ∧ Alike x y ∧ SameRead t r x y := by
  obtain ⟨hrest, hlength⟩ := skipBlanks_alike ha
  have hword : ∀ {w x r : Text}, (∀ c ∈ w, Narrow c) → Alike (w ++ x) r →
      ∃ y, r = w ++ y ∧ Alike x y := by
    intro w x r hw h
    induction w generalizing r with
    | nil => exact ⟨r, rfl, h⟩
    | cons c w ih =>
        rw [List.forall_mem_cons] at hw
        obtain ⟨r, rfl, htail⟩ := h.narrow hw.1
        obtain ⟨y, rfl, hy⟩ := ih hw.2 htail
        exact ⟨y, rfl, hy⟩
  rw [h] at hrest hlength
  obtain ⟨y, hy, hafter⟩ := hword hw hrest
  refine ⟨y, hy, hafter, ?_⟩
  rw [hy] at hlength
  simp only [SameRead, List.length_append] at hlength ⊢
  omega

/-- An ASCII character after blanks is in both texts. -/
theorem skipBlanks_mark {c : Char} {x : Text} (hc : Narrow c) (h : skipBlanks t = c :: x)
    (ha : Alike t r) : ∃ y, skipBlanks r = c :: y ∧ Alike x y ∧ SameRead t r x y :=
  skipBlanks_word [c] (by simpa using hc) h ha

end Blanks

theorem ReadsKey.alike {t k u r : Text} (h : ReadsKey t k u) (ha : Alike t r) :
    ∃ k' u', ReadsKey r k' u' ∧ Alike u u' ∧ (k = k' → SameRead t r u u') := by
  obtain ⟨x, w, hx, hk, hw⟩ := h
  obtain ⟨y, hy, hopen, hlength⟩ := skipBlanks_mark (by decide) hx ha
  obtain ⟨k', w', hk', hbody, hlength'⟩ := readBody_alike hk hopen
  obtain ⟨u', hu', hafter, hlength''⟩ := skipBlanks_mark (by decide) hw hbody
  refine ⟨k', u', ⟨y, w', hy, hk', hu'⟩, hafter, ?_⟩
  rintro rfl
  simp only [SameRead] at *
  omega

mutual

/-- **A value is read from any text that is alike**, and the same value only if as
much is read. -/
theorem Reads.alike : ∀ {t : Text} {v : Json} {u : Text}, Reads t v u → ∀ {r : Text}, Alike t r →
    ∃ v' u', Reads r v' u' ∧ Alike u u' ∧ (v = v' → SameRead t r u u')
  | _, _, _, .null h, _, ha => by
      obtain ⟨u', hu', hafter, hlength⟩ :=
        skipBlanks_word ['n', 'u', 'l', 'l'] (by simp [Narrow]) h ha
      exact ⟨_, u', .null hu', hafter, fun _ => hlength⟩
  | _, _, _, .true_ h, _, ha => by
      obtain ⟨u', hu', hafter, hlength⟩ :=
        skipBlanks_word ['t', 'r', 'u', 'e'] (by simp [Narrow]) h ha
      exact ⟨_, u', .true_ hu', hafter, fun _ => hlength⟩
  | _, _, _, .false_ h, _, ha => by
      obtain ⟨u', hu', hafter, hlength⟩ :=
        skipBlanks_word ['f', 'a', 'l', 's', 'e'] (by simp [Narrow]) h ha
      exact ⟨_, u', .false_ hu', hafter, fun _ => hlength⟩
  | _, _, _, .num h, _, ha => by
      obtain ⟨hrest, hlength⟩ := skipBlanks_alike ha
      obtain ⟨u', hu', hafter⟩ := scanNumeral_alike h hrest
      refine ⟨_, u', .num hu', hafter, fun _ => ?_⟩
      rw [scanNumeral_sound h, scanNumeral_sound hu'] at hlength
      simp only [SameRead, List.length_append] at hlength ⊢
      omega
  | _, _, _, .str h hbody, _, ha => by
      obtain ⟨y, hy, hopen, hlength⟩ := skipBlanks_mark (by decide) h ha
      obtain ⟨s', u', hread, hafter, hlength'⟩ := readBody_alike hbody hopen
      refine ⟨_, u', .str hy hread, hafter, fun heq => ?_⟩
      obtain rfl := Json.str.inj heq
      simp only [SameRead] at *
      omega
  | _, _, _, .emptyArr h hclose, _, ha => by
      obtain ⟨y, hy, hopen, hlength⟩ := skipBlanks_mark (by decide) h ha
      obtain ⟨u', hu', hafter, hlength'⟩ := skipBlanks_mark (by decide) hclose hopen
      refine ⟨_, u', .emptyArr hy hu', hafter, fun _ => ?_⟩
      simp only [SameRead] at *
      omega
  | _, _, _, .arr h helems, _, ha => by
      obtain ⟨y, hy, hopen, hlength⟩ := skipBlanks_mark (by decide) h ha
      obtain ⟨hskip, hlength'⟩ := skipBlanks_alike hopen
      obtain ⟨vs', u', hread, hafter, hsame⟩ := helems.alike hskip
      refine ⟨_, u', .arr hy hread, hafter, fun heq => ?_⟩
      have hlength'' := hsame (Json.arr.inj heq)
      simp only [SameRead] at *
      omega
  | _, _, _, .emptyObj h hclose, _, ha => by
      obtain ⟨y, hy, hopen, hlength⟩ := skipBlanks_mark (by decide) h ha
      obtain ⟨u', hu', hafter, hlength'⟩ := skipBlanks_mark (by decide) hclose hopen
      refine ⟨_, u', .emptyObj hy hu', hafter, fun _ => ?_⟩
      simp only [SameRead] at *
      omega
  | _, _, _, .obj h hmembers, _, ha => by
      obtain ⟨y, hy, hopen, hlength⟩ := skipBlanks_mark (by decide) h ha
      obtain ⟨hskip, hlength'⟩ := skipBlanks_alike hopen
      obtain ⟨ms', u', hread, hafter, hsame⟩ := hmembers.alike hskip
      refine ⟨_, u', .obj hy hread, hafter, fun heq => ?_⟩
      have hlength'' := hsame (Json.obj.inj heq)
      simp only [SameRead] at *
      omega

theorem ReadsElems.alike : ∀ {t : Text} {vs : List Json} {u : Text}, ReadsElems t vs u →
    ∀ {r : Text}, Alike t r →
      ∃ vs' u', ReadsElems r vs' u' ∧ Alike u u' ∧ (vs = vs' → SameRead t r u u')
  | _, _, _, .last hvalue hclose, _, ha => by
      obtain ⟨v', w, hvalue', hon, hsame⟩ := hvalue.alike ha
      obtain ⟨u', hu', hafter, hlength⟩ := skipBlanks_mark (by decide) hclose hon
      refine ⟨_, u', .last hvalue' hu', hafter, fun heq => ?_⟩
      have hlength' := hsame (List.cons.inj heq).1
      simp only [SameRead] at *
      omega
  | _, _, _, .cons hvalue hcomma hrest, _, ha => by
      obtain ⟨v', w, hvalue', hon, hsame⟩ := hvalue.alike ha
      obtain ⟨x, hx, hnext, hlength⟩ := skipBlanks_mark (by decide) hcomma hon
      obtain ⟨vs', u', hrest', hafter, hsame'⟩ := hrest.alike hnext
      refine ⟨_, u', .cons hvalue' hx hrest', hafter, fun heq => ?_⟩
      have hlength' := hsame (List.cons.inj heq).1
      have hlength'' := hsame' (List.cons.inj heq).2
      simp only [SameRead] at *
      omega

theorem ReadsMembers.alike : ∀ {t : Text} {ms : List (Text × Json)} {u : Text},
    ReadsMembers t ms u → ∀ {r : Text}, Alike t r →
      ∃ ms' u', ReadsMembers r ms' u' ∧ Alike u u' ∧ (ms = ms' → SameRead t r u u')
  | _, _, _, .last hkey hvalue hclose, _, ha => by
      obtain ⟨k', x, hkey', hcolon, hsame⟩ := hkey.alike ha
      obtain ⟨v', w, hvalue', hon, hsame'⟩ := hvalue.alike hcolon
      obtain ⟨u', hu', hafter, hlength⟩ := skipBlanks_mark (by decide) hclose hon
      refine ⟨_, u', .last hkey' hvalue' hu', hafter, fun heq => ?_⟩
      obtain ⟨hk, hv⟩ := Prod.mk.inj (List.cons.inj heq).1
      have hlength' := hsame hk
      have hlength'' := hsame' hv
      simp only [SameRead] at *
      omega
  | _, _, _, .cons hkey hvalue hcomma hrest, _, ha => by
      obtain ⟨k', x, hkey', hcolon, hsame⟩ := hkey.alike ha
      obtain ⟨v', w, hvalue', hon, hsame'⟩ := hvalue.alike hcolon
      obtain ⟨y, hy, hnext, hlength⟩ := skipBlanks_mark (by decide) hcomma hon
      obtain ⟨ms', u', hrest', hafter, hsame''⟩ := hrest.alike hnext
      refine ⟨_, u', .cons hkey' hvalue' hy hrest', hafter, fun heq => ?_⟩
      obtain ⟨hk, hv⟩ := Prod.mk.inj (List.cons.inj heq).1
      have hlength' := hsame hk
      have hlength'' := hsame' hv
      have hlength''' := hsame'' (List.cons.inj heq).2
      simp only [SameRead] at *
      omega

end

/-- **Texts that are alike are JSON together**, and of one value only if they are of
one length. -/
theorem parse_alike {t r : Text} {v : Json} (h : parse t = some v) (ha : Alike t r) :
    ∃ v', parse r = some v' ∧ (v = v' → t.length = r.length) := by
  obtain ⟨u, hreads, hblank⟩ := parse_eq_some_iff.mp h
  obtain ⟨v', u', hreads', hafter, hsame⟩ := hreads.alike ha
  obtain ⟨hend, hlength⟩ := skipBlanks_alike hafter
  rw [hblank] at hend hlength
  refine ⟨v', parse_eq_some_iff.mpr ⟨u', hreads', hend.nil⟩, fun heq => ?_⟩
  have hlength' := hsame heq
  rw [hend.nil] at hlength
  simp only [SameRead, List.length_nil] at *
  omega

theorem parse_eq_none_of_alike {t r : Text} (h : parse t = none) (ha : Alike t r) :
    parse r = none := by
  cases hr : parse r with
  | none => rfl
  | some v =>
      obtain ⟨v', hv', -⟩ := parse_alike hr ha.symm
      rw [h] at hv'
      cases hv'

end Json

end Wire
