import AkronSlot.Slot.LoginDetector

/-!
# What the windows say

`probeLogin` returns at the first window of the terminal whose title decides something.
The order in which `wmctrl` lists the windows matters exactly when one of them is a login
dialog and another one has the title of an account (`orderFree_iff`).  The title of an
account is read as it is meant, whatever follows it (`probeLogin_reads`).

## Verdicts on a set

A window manager lists windows by age or by stacking, and the detector should not depend on it.
Each line is judged by itself (`IsDialog`, `IsAccount`), and the loop returns at the first line
that is judged either way; so the verdict is one of the set of lines, except when both kinds
occur.

## Titles and columns

`wmctrl` prints fixed columns and then the title, and the source joins the words of the title
again with single blanks. `Columns` is a line as it is printed, with any blanks; the lemmas
about words say that what the detector reads of it is the title, whatever the blanks were.

## Main Definitions

* `IsDialog`, `IsAccount` — the lines that decide
* `OrderFree` — the verdict is one of the set of windows
* `Columns` — a line, with the blanks between its words
* `Titled` — the titles that carry an account

## Main Results

* `orderFree_iff`
* `probeLogin_reads`
-/

namespace AkronSlot.Slot

open Wire

namespace LoginDetector

/-! ## Lines -/

/-- The third column of a line. -/
def wmClass (line : Text) : Text := (words line).getD 2 []

/-- The class of a line names the terminal. Windows of other programs are passed over, whatever
their titles say. -/
def InTerminal (line : Text) : Prop := find "terminal64.exe" (lowerCase (wmClass line)) ≠ none

instance (line : Text) : Decidable (InTerminal line) := inferInstanceAs (Decidable (_ ≠ none))

/-- The title of a line. -/
def windowTitle (line : Text) : Text := [' '].intercalate ((words line).drop 4)

/-- A window of the terminal that has a title. -/
def IsWindow (line : Text) : Prop := 5 ≤ (words line).length ∧ InTerminal line

instance (line : Text) : Decidable (IsWindow line) := inferInstanceAs (Decidable (_ ∧ _))

/-- A login dialog. -/
def IsDialog (line : Text) : Prop := IsWindow line ∧ isLoginTitle (windowTitle line) = true

/-- A window that says that somebody is logged in. -/
def IsAccount (line : Text) : Prop :=
  IsWindow line ∧ isLoginTitle (windowTitle line) = false ∧ isAccountTitle (windowTitle line) = true

/-! ## The loop -/

section Scan

variable (n : ℕ) {line : Text} (lines : List Text)

theorem scanWindows_dialog (h : IsDialog line) : scanWindows n (line :: lines) = (false, none) := by
  obtain ⟨⟨hlength, hterminal⟩, hlogin⟩ := h
  simp only [InTerminal, wmClass] at hterminal
  simp only [windowTitle] at hlogin
  simp only [scanWindows, if_neg (not_lt.mpr hlength), if_neg hterminal, hlogin, if_true]

theorem scanWindows_account (h : IsAccount line) :
    scanWindows n (line :: lines) = (true, some (parseAccountTitle (windowTitle line))) := by
  obtain ⟨⟨hlength, hterminal⟩, hlogin, haccount⟩ := h
  simp only [InTerminal, wmClass] at hterminal
  simp only [windowTitle] at hlogin haccount
  simp only [scanWindows, if_neg (not_lt.mpr hlength), if_neg hterminal, hlogin, haccount, if_true]
  rfl

/-- Any other line is only counted, if it is a window. -/
theorem scanWindows_other (hdialog : ¬ IsDialog line) (haccount : ¬ IsAccount line) :
    scanWindows n (line :: lines) = scanWindows (if IsWindow line then n + 1 else n) lines := by
  by_cases hwindow : IsWindow line
  · have hlogin : isLoginTitle (windowTitle line) = false := by
      simpa [IsDialog, hwindow] using hdialog
    have htitle : isAccountTitle (windowTitle line) = false := by
      simpa [IsAccount, hwindow, hlogin] using haccount
    rw [if_pos hwindow]
    obtain ⟨hlength, hterminal⟩ := hwindow
    simp only [InTerminal, wmClass] at hterminal
    simp only [windowTitle] at hlogin htitle
    simp only [scanWindows, if_neg (not_lt.mpr hlength), if_neg hterminal, hlogin, htitle]
    rfl
  · rw [if_neg hwindow]
    rcases not_and_or.mp hwindow with hlength | hterminal
    · simp only [scanWindows, if_pos (not_le.mp hlength)]
    · simp only [InTerminal, wmClass, not_not] at hterminal
      simp only [scanWindows, hterminal, if_true, ite_self]

/-- The verdict of windows none of which is a login dialog. -/
theorem scanWindows_no_dialog (h : ∀ line ∈ lines, ¬ IsDialog line) :
    (scanWindows n lines).1 = true ↔
      (∃ line ∈ lines, IsAccount line) ∨ 2 ≤ n + lines.countP (IsWindow ·) := by
  induction lines generalizing n with
  | nil => simp [scanWindows]
  | cons line lines ih =>
      rw [List.forall_mem_cons] at h
      by_cases haccount : IsAccount line
      · rw [scanWindows_account n lines haccount]
        exact iff_of_true rfl (.inl ⟨line, List.mem_cons_self .., haccount⟩)
      · rw [scanWindows_other n lines h.1 haccount, ih _ h.2, List.countP_cons]
        by_cases hwindow : IsWindow line
        · simp [haccount, hwindow, Nat.add_assoc, Nat.add_comm 1]
        · simp [haccount, hwindow]

/-- The verdict of windows of which one is a login dialog, and none an account. -/
theorem scanWindows_dialog_only (hdialog : ∃ line ∈ lines, IsDialog line)
    (haccount : ∀ line ∈ lines, ¬ IsAccount line) : (scanWindows n lines).1 = false := by
  induction lines generalizing n with
  | nil => simp at hdialog
  | cons line lines ih =>
      rw [List.forall_mem_cons] at haccount
      by_cases hline : IsDialog line
      · rw [scanWindows_dialog n lines hline]
      · rw [scanWindows_other n lines hline haccount.1]
        refine ih _ ?_ haccount.2
        obtain ⟨l, hl, hdialog⟩ := hdialog
        exact ⟨l, (List.mem_cons.mp hl).resolve_left (by rintro rfl; exact hline hdialog), hdialog⟩

end Scan

/-! ## Blank lines -/

/-- Nothing but blanks has no word. -/
theorem words_of_blank {t : Text} (h : ∀ c ∈ t, isBlank c = true) : words t = [] := by
  rw [words]
  induction t with
  | nil => rfl
  | cons c t ih =>
      rw [List.forall_mem_cons] at h
      rw [List.splitOnP_cons_eq_if_modifyHead, if_pos h.1]
      exact ih h.2

theorem blank_of_trim {t : Text} (h : trim t = []) : ∀ c ∈ t, isBlank c = true := by
  rw [trim, List.reverse_eq_nil_iff, List.dropWhile_eq_nil_iff] at h
  intro c hc
  rw [← List.takeWhile_append_dropWhile (p := isBlank) (l := t), List.mem_append] at hc
  rcases hc with hc | hc
  · exact List.mem_takeWhile_imp hc
  · exact h c (List.mem_reverse.mpr hc)

/-- The filter drops nothing that the loop would look at. -/
theorem scanWindows_filter (n : ℕ) (lines : List Text) :
    scanWindows n (lines.filter fun line => trim line ≠ []) = scanWindows n lines := by
  induction lines generalizing n with
  | nil => rfl
  | cons line lines ih =>
      by_cases hblank : trim line = []
      · have hwords := words_of_blank (blank_of_trim hblank)
        rw [List.filter_cons_of_neg (by simpa using hblank), ih]
        simp [scanWindows, hwords]
      · rw [List.filter_cons_of_pos (by simpa using hblank)]
        simp only [scanWindows, ih]

theorem probeLogin_eq (stdout : Text) :
    probeLogin (.ok stdout) = scanWindows 0 (stdout.splitOn '\n') := scanWindows_filter 0 _

/-! ## The order of the windows -/

/-- The verdict is one of the set of windows, and a login dialog decides it. The first field lets
the lines be put in any order; the second is what the comment of the loop says. -/
structure OrderFree (stdout : Text) : Prop where
  same : ∀ stdout' : Text, (stdout'.splitOn '\n').Perm (stdout.splitOn '\n') →
    (probeLogin (.ok stdout')).1 = (probeLogin (.ok stdout)).1
  dialog : (∃ line ∈ stdout.splitOn '\n', IsDialog line) → (probeLogin (.ok stdout)).1 = false

/-- A login dialog is listed, and so is a window with the title of an account. The terminal shows
both while somebody changes the account. -/
def Torn (stdout : Text) : Prop :=
  (∃ line ∈ stdout.splitOn '\n', IsDialog line) ∧ ∃ line ∈ stdout.splitOn '\n', IsAccount line

theorem newline_notMem {stdout line : Text} (h : line ∈ stdout.splitOn '\n') : '\n' ∉ line := by
  induction stdout generalizing line with
  | nil =>
      obtain rfl : line = [] := by simpa using h
      simp
  | cons c t ih =>
      rw [List.splitOn_cons_eq_if_modifyHead] at h
      split_ifs at h with hc
      · rcases List.mem_cons.mp h with rfl | h
        · simp
        · exact ih h
      · obtain ⟨l, ls, hls⟩ := List.exists_cons_of_ne_nil (List.splitOn_ne_nil '\n' t)
        rw [hls, List.modifyHead_cons, List.mem_cons] at h
        rcases h with rfl | h
        · have hl : '\n' ∉ l := ih (hls ▸ List.mem_cons_self ..)
          have hne : '\n' ≠ c := fun heq => hc (by simp [← heq])
          simp [hne, hl]
        · exact ih (hls ▸ List.mem_cons_of_mem _ h)

/-- The windows can be listed with any of them first. -/
theorem exists_listed_first {stdout line : Text} (h : line ∈ stdout.splitOn '\n') :
    ∃ (stdout' : Text) (lines : List Text), (stdout'.splitOn '\n').Perm (stdout.splitOn '\n') ∧
      stdout'.splitOn '\n' = line :: lines := by
  have hperm : (line :: (stdout.splitOn '\n').erase line).Perm (stdout.splitOn '\n') :=
    (List.perm_cons_erase h).symm
  have hsplit := @List.splitOn_intercalate _ (line :: (stdout.splitOn '\n').erase line) _ _ '\n'
    (fun l hl => newline_notMem (hperm.mem_iff.mp hl)) (List.cons_ne_nil _ _)
  exact ⟨_, _, by rwa [hsplit], hsplit⟩

/-- **The order does not matter exactly when the windows are not torn.** The scan ends at the
first line that decides, so it matters as soon as there are lines that decide differently. -/
theorem orderFree_iff (stdout : Text) : OrderFree stdout ↔ ¬ Torn stdout := by
  constructor
  · rintro ⟨hsame, -⟩ ⟨⟨dialog, hdialog, isDialog⟩, account, haccount, isAccount⟩
    obtain ⟨stdout₁, lines₁, hperm₁, hfirst₁⟩ := exists_listed_first hdialog
    obtain ⟨stdout₂, lines₂, hperm₂, hfirst₂⟩ := exists_listed_first haccount
    have hverdicts := (hsame stdout₁ hperm₁).trans (hsame stdout₂ hperm₂).symm
    rw [probeLogin_eq, probeLogin_eq, hfirst₁, hfirst₂, scanWindows_dialog _ _ isDialog,
      scanWindows_account _ _ isAccount] at hverdicts
    cases hverdicts
  · intro h
    by_cases hdialog : ∃ line ∈ stdout.splitOn '\n', IsDialog line
    · have haccount : ∀ line ∈ stdout.splitOn '\n', ¬ IsAccount line :=
        fun line hline hbad => h ⟨hdialog, line, hline, hbad⟩
      have hverdict : (probeLogin (.ok stdout)).1 = false := by
        rw [probeLogin_eq]
        exact scanWindows_dialog_only 0 _ hdialog haccount
      refine ⟨fun stdout' hperm => ?_, fun _ => hverdict⟩
      rw [hverdict, probeLogin_eq]
      refine scanWindows_dialog_only 0 _ ?_ fun line hline => haccount line (hperm.mem_iff.mp hline)
      obtain ⟨line, hline, isDialog⟩ := hdialog
      exact ⟨line, hperm.mem_iff.mpr hline, isDialog⟩
    · have hno : ∀ line ∈ stdout.splitOn '\n', ¬ IsDialog line :=
        fun line hline isDialog => hdialog ⟨line, hline, isDialog⟩
      refine ⟨fun stdout' hperm => ?_, fun hbad => absurd hbad hdialog⟩
      have hno' : ∀ line ∈ stdout'.splitOn '\n', ¬ IsDialog line :=
        fun line hline => hno line (hperm.mem_iff.mp hline)
      rw [probeLogin_eq, probeLogin_eq, Bool.eq_iff_iff, scanWindows_no_dialog 0 _ hno,
        scanWindows_no_dialog 0 _ hno', hperm.countP_eq]
      simp only [hperm.mem_iff]

/-- The main window, and in front of it the dialog. -/
def mainThenDialog : Text :=
  "0x1 0 terminal64.exe.wine host MetaTrader 5\n0x2 0 terminal64.exe.wine host Login"

/-- The dialog is there, and the verdict is that somebody is logged in. -/
theorem mainThenDialog_not_orderFree : ¬ OrderFree mainThenDialog := by
  intro h
  have hverdict := h.dialog ⟨"0x2 0 terminal64.exe.wine host Login", by decide +kernel,
    by unfold IsDialog; decide +kernel⟩
  exact absurd hverdict (by decide +kernel)

/-! ## Words -/

/-- A word: not empty, and without blanks. -/
def IsWord (w : Text) : Prop := w ≠ [] ∧ ∀ c ∈ w, isBlank c = false

/-- What stands between words. -/
def IsGap (g : Text) : Prop := g ≠ [] ∧ ∀ c ∈ g, isBlank c = true

theorem words_append_blank {c : Char} (hc : isBlank c = true) (s t : Text) :
    words (s ++ c :: t) = words s ++ words t := by
  rw [words, List.splitOnP_append_cons s t hc, List.filter_append, words, words]

theorem words_of_word {w : Text} (h : IsWord w) : words w = [w] := by
  rw [words, List.splitOnP_eq_singleton h.2]
  simp [h.1]

/-- Blanks in front of a text belong to no word. -/
theorem words_blanks_append {g : Text} (h : ∀ c ∈ g, isBlank c = true) (t : Text) :
    words (g ++ t) = words t := by
  induction g with
  | nil => rfl
  | cons c g ih =>
      rw [List.forall_mem_cons] at h
      have hsplit := words_append_blank h.1 [] (g ++ t)
      rw [List.nil_append] at hsplit
      rw [List.cons_append, hsplit, ih h.2]
      rfl

/-- A word ends at a gap. -/
theorem words_gap {w g : Text} (hw : IsWord w) (hg : IsGap g) (t : Text) :
    words (w ++ (g ++ t)) = w :: words t := by
  obtain ⟨c, g, rfl⟩ := List.exists_cons_of_ne_nil hg.1
  have hblank := List.forall_mem_cons.mp hg.2
  rw [List.cons_append, words_append_blank hblank.1, words_of_word hw, words_blanks_append hblank.2]
  rfl

/-- A word that goes on. -/
theorem exists_words_append {w : Text} (hw : IsWord w) (t : Text) :
    ∃ s ws, words (w ++ t) = (w ++ s) :: ws := by
  set p : Char → Bool := fun c => !isBlank c with hp
  have hword : IsWord (w ++ t.takeWhile p) := by
    refine ⟨by simp [hw.1], fun c hc => ?_⟩
    rcases List.mem_append.mp hc with hc | hc
    · exact hw.2 c hc
    · simpa [hp] using List.mem_takeWhile_imp hc
  have hsplit : w ++ t = (w ++ t.takeWhile p) ++ t.dropWhile p := by
    rw [List.append_assoc, List.takeWhile_append_dropWhile]
  cases hrest : t.dropWhile p with
  | nil =>
      refine ⟨t.takeWhile p, [], ?_⟩
      rw [hsplit, hrest, List.append_nil, words_of_word hword]
  | cons c r =>
      have hblank : isBlank c = true := by
        have hhead := List.head?_dropWhile_not p t
        rw [hrest] at hhead
        simpa [hp] using hhead
      refine ⟨t.takeWhile p, words r, ?_⟩
      rw [hsplit, hrest, words_append_blank hblank, words_of_word hword]
      rfl

/-! ## A line of `wmctrl -lx` -/

/-- The columns in front of a title, with the blanks around them. -/
structure Columns where
  margin : Text
  id : Text
  gap₁ : Text
  desktop : Text
  gap₂ : Text
  wmClass : Text
  gap₃ : Text
  host : Text
  gap₄ : Text
  margin_blank : ∀ c ∈ margin, isBlank c = true
  columns : ∀ w ∈ [id, desktop, wmClass, host], IsWord w
  gaps : ∀ g ∈ [gap₁, gap₂, gap₃, gap₄], IsGap g
  inTerminal : find "terminal64.exe" (lowerCase wmClass) ≠ none

/-- The line with a title. -/
def Columns.line (c : Columns) (title : Text) : Text :=
  c.margin ++ (c.id ++ (c.gap₁ ++ (c.desktop ++ (c.gap₂ ++ (c.wmClass ++ (c.gap₃ ++
    (c.host ++ (c.gap₄ ++ title))))))))

theorem Columns.words_line (c : Columns) (title : Text) :
    words (c.line title) = c.id :: c.desktop :: c.wmClass :: c.host :: words title := by
  have hcolumns := c.columns
  have hgaps := c.gaps
  simp only [List.forall_mem_cons] at hcolumns hgaps
  obtain ⟨hid, hdesktop, hclass, hhost, -⟩ := hcolumns
  obtain ⟨hgap₁, hgap₂, hgap₃, hgap₄, -⟩ := hgaps
  rw [Columns.line, words_blanks_append c.margin_blank, words_gap hid hgap₁,
    words_gap hdesktop hgap₂, words_gap hclass hgap₃, words_gap hhost hgap₄]

theorem Columns.windowTitle_line (c : Columns) (title : Text) :
    windowTitle (c.line title) = [' '].intercalate (words title) := by
  rw [windowTitle, c.words_line]
  rfl

theorem Columns.isWindow_line (c : Columns) {title : Text} (h : words title ≠ []) :
    IsWindow (c.line title) := by
  have hlength := List.length_pos_iff.mpr h
  refine ⟨by rw [c.words_line]; simp only [List.length_cons]; omega, ?_⟩
  rw [InTerminal, LoginDetector.wmClass, c.words_line]
  exact c.inTerminal

/-! ## Titles -/

/-- `\d{4,}`. -/
def IsLogin (login : Text) : Prop := 4 ≤ login.length ∧ ∀ c ∈ login, c.isDigit = true

/-- `[A-Za-z][A-Za-z0-9_-]*`. -/
def IsServer : Text → Prop
  | [] => False
  | c :: t => c.isAlpha = true ∧ ∀ d ∈ t, (isWordChar d || d = '-') = true

/-- A title, and the account that it names: a login and a server in front of a colon, or the word
`Account:` and a login. What follows is free. -/
inductive Titled : Text → TitleAccount → Prop where
  | server {login server : Text} (gap₁ gap₂ rest : Text) : IsLogin login → IsGap gap₁ →
      IsGap gap₂ → IsServer server →
      Titled (login ++ (gap₁ ++ (['-'] ++ (gap₂ ++ (server ++ ':' :: rest)))))
        ⟨some login, some server⟩
  | account {login : Text} (gap rest : Text) : IsLogin login → IsGap gap →
      (∀ c ∈ rest.head?, isBlank c = true) →
      Titled ("Account:".toList ++ (gap ++ (login ++ rest))) ⟨some login, none⟩

theorem isDigit_cases {c : Char} (h : c.isDigit = true) :
    c.toLower = c ∧ isBlank c = false ∧ c ≠ 'l' ∧ c ≠ 'm' := by
  have hc : c = Char.ofNat c.toNat := (Char.ofNat_toNat c).symm
  have hbounds : 48 ≤ c.toNat ∧ c.toNat ≤ 57 := by
    simpa [Char.isDigit, UInt32.le_iff_toNat_le] using h
  obtain ⟨hlow, hhigh⟩ := hbounds
  generalize c.toNat = n at hc hlow hhigh
  interval_cases n <;> subst hc <;> decide

theorem blank_bounds {c : Char} (h : isBlank c = true) : c.toNat < 33 ∨ 160 ≤ c.toNat := by
  simp only [isBlank, Bool.or_eq_true, Bool.and_eq_true, decide_eq_true_eq, List.mem_cons,
    List.not_mem_nil, or_false] at h
  rcases h with ((rfl | h) | h) | h
  · exact .inl (by decide)
  all_goals omega

theorem not_blank_of_bounds {c : Char} (h : 33 ≤ c.toNat ∧ c.toNat < 160) :
    isBlank c = false := by
  by_contra hblank
  have := blank_bounds (by simpa using hblank)
  omega

/-- The characters of a server name. -/
theorem not_blank_of_name {c : Char} (h : (isWordChar c || c = '-') = true) :
    isBlank c = false := by
  apply not_blank_of_bounds
  simp [isWordChar, Char.isAlphanum, Char.isAlpha, Char.isUpper, Char.isLower, Char.isDigit,
    UInt32.le_iff_toNat_le] at h
  rcases h with (h | rfl) | rfl
  · omega
  · decide
  · decide

/-- A blank is no capital letter, and no digit. -/
theorem toLower_of_blank {c : Char} (h : isBlank c = true) : c.toLower.isDigit = false := by
  have hbounds := blank_bounds h
  have hlower : c.toLower = c := by
    unfold Char.toLower
    split
    · next hupper =>
        simp [UInt32.le_iff_toNat_le] at hupper
        omega
    · rfl
  rw [hlower]
  by_contra hdigit
  rw [(isDigit_cases (by simpa using hdigit)).2.1] at h
  cases h

theorem isWord_of_all {w : Text} (hw : w ≠ [])
    (h : (w.all fun c => decide (33 ≤ c.toNat ∧ c.toNat < 160)) = true) : IsWord w :=
  ⟨hw, fun c hc => not_blank_of_bounds (of_decide_eq_true (List.all_eq_true.mp h c hc))⟩

theorem IsLogin.isWord {login : Text} (h : IsLogin login) : IsWord login :=
  ⟨List.ne_nil_of_length_pos (by have := h.1; omega), fun c hc => (isDigit_cases (h.2 c hc)).2.1⟩

/-- A title that starts with another letter is not the one of the dialog. -/
theorem isLoginTitle_of_head {c : Char} {t : Text} (hblank : isBlank c.toLower = false)
    (hl : c.toLower ≠ 'l') (hm : c.toLower ≠ 'm') : isLoginTitle (c :: t) = false := by
  have htrim : trim (lowerCase (c :: t)) ≠ "login".toList := by
    intro heq
    have hdrop : (lowerCase (c :: t)).dropWhile isBlank = lowerCase (c :: t) :=
      List.dropWhile_cons_of_neg (by simp [hblank])
    have hprefix : "login".toList <+: lowerCase (c :: t) := by
      rw [← heq, trim, hdrop]
      exact List.rdropWhile_prefix isBlank _
    exact hl (List.cons_prefix_cons.mp hprefix).1.symm
  have hlogin : startsWithWord "login" (lowerCase (c :: t)) = false := by
    simp [startsWithWord, lowerCase, afterPrefix, hl.symm]
  have hmeta : startsWithWord "metatrader 5 - login" (lowerCase (c :: t)) = false := by
    simp [startsWithWord, lowerCase, afterPrefix, hm.symm]
  simp only [isLoginTitle, hlogin, hmeta, decide_eq_false htrim]
  rfl

theorem loginDigits_append {login t : Text} (h : IsLogin login)
    (ht : ∀ c ∈ t.head?, c.isDigit = false) : loginDigits (login ++ t) = some (login, t) := by
  have hrun : (login ++ t).takeWhile Char.isDigit = login ∧
      (login ++ t).dropWhile Char.isDigit = t := by
    rw [List.takeWhile_append_of_pos h.2, List.dropWhile_append_of_pos h.2]
    cases t with
    | nil => simp
    | cons c t =>
        have hc : c.isDigit = false := ht c rfl
        simp [hc]
  rw [loginDigits, hrun.1, hrun.2, if_pos h.1]

theorem isServer_cons {server : Text} (h : IsServer server) :
    ∃ c t, server = c :: t ∧ c.isAlpha = true ∧ isBlank c = false ∧
      ∀ d ∈ t, (isWordChar d || d = '-') = true ∧ isBlank d = false := by
  cases server with
  | nil => exact h.elim
  | cons c t =>
      exact ⟨c, t, rfl, h.1, not_blank_of_name (by simp [isWordChar, Char.isAlphanum, h.1]),
        fun d hd => ⟨h.2 d hd, not_blank_of_name (h.2 d hd)⟩⟩

/-- The lazy repetition stops at the colon: nothing of the name can be skipped. -/
theorem serverName_append {server : Text} (h : IsServer server) (rest : Text) :
    serverName (server ++ ':' :: rest) = some server := by
  obtain ⟨c, t, rfl, halpha, -, hname⟩ := isServer_cons h
  have hall : ∀ d ∈ t, (isWordChar d || d = '-') = true := fun d hd => (hname d hd).1
  have htake : (t ++ ':' :: rest).takeWhile (fun d => isWordChar d || d = '-') = t := by
    rw [List.takeWhile_append_of_pos hall, List.takeWhile_cons_of_neg (by decide),
      List.append_nil]
  have hdrop : (t ++ ':' :: rest).dropWhile (fun d => isWordChar d || d = '-') = ':' :: rest := by
    rw [List.dropWhile_append_of_pos hall, List.dropWhile_cons_of_neg (by decide)]
  have hstop : ((':' :: rest).dropWhile isBlank).head? = some ':' := by
    rw [List.dropWhile_cons_of_neg (by decide)]
    rfl
  simp only [List.cons_append, serverName, htake, hdrop]
  exact if_pos ⟨halpha, hstop⟩

theorem parseAccountTitle_server {login server : Text} (hlogin : IsLogin login)
    (hserver : IsServer server) (rest : Text) :
    parseAccountTitle (login ++ ' ' :: '-' :: ' ' :: (server ++ ':' :: rest)) =
      ⟨some login, some server⟩ := by
  obtain ⟨c, t, hcons, -, hblank, -⟩ := isServer_cons hserver
  have hdigits : loginDigits (login ++ ' ' :: '-' :: ' ' :: (server ++ ':' :: rest)) =
      some (login, ' ' :: '-' :: ' ' :: (server ++ ':' :: rest)) :=
    loginDigits_append hlogin (by rintro _ ⟨⟩; decide)
  have hdash : (' ' :: '-' :: ' ' :: (server ++ ':' :: rest)).dropWhile isBlank =
      '-' :: ' ' :: (server ++ ':' :: rest) := by
    rw [List.dropWhile_cons_of_pos (by decide), List.dropWhile_cons_of_neg (by decide)]
  have hname : (' ' :: (server ++ ':' :: rest)).dropWhile isBlank = server ++ ':' :: rest := by
    rw [List.dropWhile_cons_of_pos (by decide), hcons, List.cons_append,
      List.dropWhile_cons_of_neg (by simp [hblank])]
  have hafter : afterPrefix ['-'] ('-' :: ' ' :: (server ++ ':' :: rest)) =
      some (' ' :: (server ++ ':' :: rest)) := rfl
  have hfound : loginAndServer (login ++ ' ' :: '-' :: ' ' :: (server ++ ':' :: rest)) =
      some ⟨some login, some server⟩ := by
    simp only [loginAndServer, hdigits, Option.bind_eq_bind, Option.bind_some, hdash, hafter, hname,
      serverName_append hserver]
    rfl
  rw [parseAccountTitle, hfound]

theorem parseAccountTitle_account {login : Text} (hlogin : IsLogin login) {rest : Text}
    (hrest : ∀ c ∈ rest.head?, isBlank c = true) :
    parseAccountTitle ("Account: ".toList ++ (login ++ rest)) = ⟨some login, none⟩ := by
  have hnone : loginAndServer ("Account: ".toList ++ (login ++ rest)) = none := rfl
  have hlower : lowerCase login = login :=
    (List.map_congr_left fun c hc => (isDigit_cases (hlogin.2 c hc)).1).trans (List.map_id _)
  have hafter : afterPrefix "account:" (lowerCase ("Account: ".toList ++ (login ++ rest))) =
      some (' ' :: (login ++ lowerCase rest)) := by
    rw [lowerCase, List.map_append, List.map_append]
    change some (' ' :: (lowerCase login ++ lowerCase rest)) = _
    rw [hlower]
  have hblank : (' ' :: (login ++ lowerCase rest)).dropWhile isBlank = login ++ lowerCase rest := by
    obtain ⟨c, t, hcons⟩ := List.exists_cons_of_ne_nil hlogin.isWord.1
    have hc : isBlank c = false := hlogin.isWord.2 c (hcons ▸ List.mem_cons_self ..)
    rw [List.dropWhile_cons_of_pos (by decide), hcons, List.cons_append,
      List.dropWhile_cons_of_neg (by simp [hc])]
  have hdigits : loginDigits (login ++ lowerCase rest) = some (login, lowerCase rest) := by
    refine loginDigits_append hlogin fun c hc => ?_
    rw [lowerCase, List.head?_map, Option.mem_map] at hc
    obtain ⟨d, hd, rfl⟩ := hc
    exact toLower_of_blank (hrest d hd)
  rw [parseAccountTitle, hnone, hafter]
  simp only [hblank, hdigits]
  rfl

/-! ## What is read -/

/-- The first of the joined words. -/
theorem exists_join (w : Text) (ws : List Text) : ∃ t : Text,
    [' '].intercalate (w :: ws) = w ++ t ∧ ∀ c ∈ t.head?, isBlank c = true := by
  cases ws with
  | nil => exact ⟨[], by simp, by simp⟩
  | cons v ws =>
      refine ⟨' ' :: [' '].intercalate (v :: ws), by rw [List.intercalate_cons_cons]; simp, ?_⟩
      rintro _ ⟨⟩
      decide

theorem isAccountTitle_of_colon {title : Text} (h : ':' ∈ title) : isAccountTitle title = true := by
  simp [isAccountTitle, h]

/-- A server with its colon is a word. -/
theorem isWord_server {server : Text} (h : IsServer server) : IsWord (server ++ [':']) := by
  obtain ⟨c, t, rfl, -, hc, ht⟩ := isServer_cons h
  refine ⟨by simp, fun d hd => ?_⟩
  simp only [List.cons_append, List.mem_cons, List.mem_append, List.not_mem_nil,
    or_false] at hd
  rcases hd with rfl | hd | rfl
  · exact hc
  · exact (ht d hd).2
  · exact not_blank_of_bounds (by decide)

/-- A word that ends with the text or before a blank. -/
theorem exists_words_word {w rest : Text} (hw : IsWord w)
    (hrest : ∀ c ∈ rest.head?, isBlank c = true) : ∃ ws, words (w ++ rest) = w :: ws := by
  cases rest with
  | nil => exact ⟨[], by rw [List.append_nil, words_of_word hw]⟩
  | cons c rest =>
      refine ⟨words rest, ?_⟩
      rw [words_append_blank (hrest c rfl), words_of_word hw, List.singleton_append]

/-- The words of a title, joined again. -/
theorem Titled.joined {title : Text} {account : TitleAccount} (h : Titled title account) :
    words title ≠ [] ∧ ∃ c t, [' '].intercalate (words title) = c :: t ∧
      isLoginTitle (c :: t) = false ∧ isAccountTitle (c :: t) = true ∧
        parseAccountTitle (c :: t) = account := by
  cases h with
  | @server login server gap₁ gap₂ rest hlogin hgap₁ hgap₂ hserver =>
      have hdash : IsWord ['-'] := isWord_of_all (by decide) (by decide)
      -- what follows the colon may belong to the last word
      obtain ⟨s, ws, hwords⟩ := exists_words_append (isWord_server hserver) rest
      obtain ⟨t, hjoin, -⟩ := exists_join ((server ++ [':']) ++ s) ws
      have hsplit : server ++ ':' :: rest = (server ++ [':']) ++ rest := by simp
      rw [words_gap hlogin.isWord hgap₁, words_gap hdash hgap₂, hsplit, hwords]
      refine ⟨List.cons_ne_nil _ _, ?_⟩
      have htitle : [' '].intercalate (login :: ['-'] :: (server ++ [':'] ++ s) :: ws) =
          login ++ ' ' :: '-' :: ' ' :: (server ++ ':' :: (s ++ t)) := by
        rw [List.intercalate_cons_cons, List.intercalate_cons_cons, hjoin]
        simp
      obtain ⟨c, l, hcons⟩ := List.exists_cons_of_ne_nil hlogin.isWord.1
      obtain ⟨hlower, hblank, hl, hm⟩ := isDigit_cases (hlogin.2 c (hcons ▸ List.mem_cons_self ..))
      have hparse := parseAccountTitle_server hlogin hserver (s ++ t)
      rw [htitle]
      rw [hcons] at hparse ⊢
      refine ⟨c, _, rfl, ?_, isAccountTitle_of_colon (by simp), hparse⟩
      exact isLoginTitle_of_head (by rw [hlower, hblank]) (by rwa [hlower]) (by rwa [hlower])
  | @account login gap rest hlogin hgap hrest =>
      have hlabel : IsWord "Account:".toList := isWord_of_all (by decide) (by decide)
      obtain ⟨ws, hws⟩ := exists_words_word hlogin.isWord hrest
      obtain ⟨t, hjoin, hblank⟩ := exists_join login ws
      rw [words_gap hlabel hgap, hws]
      refine ⟨List.cons_ne_nil _ _, ?_⟩
      have htitle : [' '].intercalate ("Account:".toList :: login :: ws) =
          "Account: ".toList ++ (login ++ t) := by
        rw [List.intercalate_cons_cons, hjoin]
        rfl
      rw [htitle]
      have hcolon : ':' ∈ "Account: ".toList ++ (login ++ t) := List.mem_append_left _ (by decide)
      exact ⟨'A', _, rfl, isLoginTitle_of_head (not_blank_of_bounds (by decide)) (by decide)
        (by decide),
        isAccountTitle_of_colon hcolon, parseAccountTitle_account hlogin hblank⟩

/-- Lines of other windows do not decide. -/
theorem scanWindows_append {lines : List Text} (h : ∀ line ∈ lines, ¬ InTerminal line) (n : ℕ)
    (rest : List Text) : scanWindows n (lines ++ rest) = scanWindows n rest := by
  induction lines with
  | nil => rfl
  | cons line lines ih =>
      rw [List.forall_mem_cons] at h
      have hwindow : ¬ IsWindow line := fun hbad => h.1 hbad.2
      rw [List.cons_append, scanWindows_other n _ (fun hbad => hwindow hbad.1)
        (fun hbad => hwindow hbad.1), if_neg hwindow, ih h.2]

/-- **The first window of the terminal is read as its title says**, whatever blanks are
between the words and whatever follows. -/
theorem probeLogin_reads {stdout : Text} {before after : List Text} (c : Columns) {title : Text}
    {account : TitleAccount} (h : Titled title account)
    (hlines : stdout.splitOn '\n' = before ++ c.line title :: after)
    (hfirst : ∀ line ∈ before, ¬ InTerminal line) :
    probeLogin (.ok stdout) = (true, some account) := by
  obtain ⟨hwords, d, t, hjoin, hlogin, haccount, hparse⟩ := h.joined
  have htitle : windowTitle (c.line title) = d :: t := by rw [c.windowTitle_line, hjoin]
  have hline : IsAccount (c.line title) :=
    ⟨c.isWindow_line hwords, by rw [htitle, hlogin], by rw [htitle, haccount]⟩
  rw [probeLogin_eq, hlines, scanWindows_append hfirst, scanWindows_account _ _ hline, htitle,
    hparse]

/-- A window manager's line, and the columns of it. -/
def demoColumns : Columns where
  margin := []
  id := "0x2"
  gap₁ := "  "
  desktop := "0"
  gap₂ := " "
  wmClass := "terminal64.exe.wine"
  gap₃ := "  "
  host := "host"
  gap₄ := " "
  margin_blank := by simp
  columns := by
    simp only [List.forall_mem_cons, List.not_mem_nil, false_imp_iff, implies_true, and_true]
    refine ⟨?_, ?_, ?_, ?_⟩ <;> exact isWord_of_all (by decide) (by decide)
  gaps := by
    simp only [List.forall_mem_cons, List.not_mem_nil, false_imp_iff, implies_true, and_true]
    refine ⟨?_, ?_, ?_, ?_⟩ <;> exact ⟨by decide, by simp [isBlank]⟩
  inTerminal := by decide +kernel

/-- A title with hyphens, colons and digits behind the name of the server. -/
def demoTitle : Text :=
  "32141235".toList ++ (" ".toList ++ (['-'] ++ ("  ".toList ++
    ("Deriv-Server-02".toList ++ ':' :: " Real - 5001: Hedge".toList))))

theorem demoTitle_titled : Titled demoTitle ⟨some "32141235", some "Deriv-Server-02"⟩ := by
  refine .server _ _ _ ⟨by decide, ?_⟩ ⟨by decide, ?_⟩ ⟨by decide, ?_⟩ ⟨by decide, ?_⟩
  · exact List.all_eq_true.mp (by decide)
  · simp [isBlank]
  · simp [isBlank]
  · exact List.all_eq_true.mp (by decide)

/-- The account of that title, below a window of another program. -/
theorem demo_reads : probeLogin (.ok ("0x1 0 Navigator.firefox host Mail: 4711 - x".toList ++
    '\n' :: demoColumns.line demoTitle)) =
      (true, some ⟨some "32141235", some "Deriv-Server-02"⟩) := by
  have hlines : ("0x1 0 Navigator.firefox host Mail: 4711 - x".toList ++
      '\n' :: demoColumns.line demoTitle).splitOn '\n' =
        ["0x1 0 Navigator.firefox host Mail: 4711 - x".toList] ++
          demoColumns.line demoTitle :: [] := by decide +kernel
  refine probeLogin_reads demoColumns demoTitle_titled hlines ?_
  rw [List.forall_mem_singleton]
  decide +kernel

end LoginDetector

end AkronSlot.Slot
