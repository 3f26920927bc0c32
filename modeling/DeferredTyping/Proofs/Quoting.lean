import Mathlib.Data.List.Basic
import DeferredTyping.Toml.Quoted

/-!
# Strings are read back

A string is written between double or single quotes, on one line or on several.  Each character
is written so that the reader takes it for itself: escaped where it would mean something else,
or as it is.  Only runs of quotes on several lines need more than the next character: three of
them close the string, so the quotes right before are counted, and one or two of them before
the closing ones belong to the text.
-/

namespace DeferredTyping.Toml

/-- The character is written with an escape where a string is escaped. -/
def Escaped (c : Char) : Prop :=
  c = '"' ∨ c = '\\' ∨ c = '\t' ∨ isPlain c = false

theorem toNat_lt_of_not_isPlain {c : Char} (control : isPlain c = false) : c.toNat < 128 := by
  simp only [isPlain, Bool.or_eq_false_iff, Bool.and_eq_false_iff, decide_eq_false_iff_not,
    bne_eq_false_iff_eq] at control
  rcases control.2 with low | rfl
  · have : c.toNat < 32 := by
      simpa [Char.le_def, UInt32.le_iff_toNat_le] using low
    omega
  · decide

theorem Escaped.toNat_lt {c : Char} (escaped : Escaped c) : c.toNat < 128 := by
  rcases escaped with rfl | rfl | rfl | control
  · decide
  · decide
  · decide
  · exact toNat_lt_of_not_isPlain control

/-- The digits of a code below 256 are read as its character. -/
theorem codePoint?_upperHexDigit : ∀ code < 256,
    codePoint? ['0', '0', upperHexDigit (code / 16), upperHexDigit (code % 16)] =
      some (Char.ofNat code) := by
  decide +kernel

theorem readBasic_escape {c : Char} (escaped : Escaped c) (rest : List Char) :
    readBasic (escape c ++ rest) = cons? (some c) (readBasic rest) := by
  have code := codePoint?_upperHexDigit c.toNat (Nat.lt_trans escaped.toNat_lt (by decide))
  rw [Char.ofNat_toNat] at code
  unfold escape
  split
  case h_8 => rw [← code]; rfl
  all_goals rfl

theorem readMultiline_escape {c : Char} (escaped : Escaped c) (rest : List Char) :
    readMultiline .off (escape c ++ rest) = cons? (some c) (readMultiline .off rest) := by
  have code := codePoint?_upperHexDigit c.toNat (Nat.lt_trans escaped.toNat_lt (by decide))
  rw [Char.ofNat_toNat] at code
  unfold escape
  split
  case h_8 => rw [← code]; rfl
  all_goals rfl

theorem readBasic_plain {c : Char} (plain : isPlain c = true) (quote : c ≠ '"')
    (backslash : c ≠ '\\') (rest : List Char) :
    readBasic (c :: rest) = cons? (some c) (readBasic rest) := by
  rw [readBasic.eq_def (c :: rest)]
  split <;> simp_all

theorem escaped_iff {c : Char} :
    (c == '\t' || c == '"' || c == '\\' || !isPlain c) = true ↔ Escaped c := by
  simp [Escaped, or_left_comm, or_assoc]

theorem escapeLine_cons (c : Char) (text : List Char) :
    (Escaped c ∧ escapeLine (c :: text) = escape c ++ escapeLine text) ∨
      (¬ Escaped c ∧ escapeLine (c :: text) = c :: escapeLine text) := by
  by_cases escaped : Escaped c
  · refine .inl ⟨escaped, ?_⟩
    rw [escapeLine, List.flatMap_cons, if_pos (escaped_iff.mpr escaped), escapeLine]
  · refine .inr ⟨escaped, ?_⟩
    rw [escapeLine, List.flatMap_cons, if_neg (escaped_iff.not.mpr escaped), escapeLine]
    rfl

theorem readBasic_escapeLine (text rest : List Char) :
    readBasic (escapeLine text ++ '"' :: rest) = some (text, rest) := by
  induction text with
  | nil => rfl
  | cons c text ih =>
      rcases escapeLine_cons c text with ⟨escaped, written⟩ | ⟨plain, written⟩
      · rw [written, List.append_assoc, readBasic_escape escaped, ih]
        rfl
      · simp only [Escaped, not_or, Bool.not_eq_false] at plain
        obtain ⟨quote, backslash, _, plain⟩ := plain
        rw [written, List.cons_append, readBasic_plain plain quote backslash, ih]
        rfl

/-- A plain character is text unless it starts an escape or is the first of three quotes. -/
theorem readMultiline_plain {c : Char} {rest : List Char} (plain : isPlain c = true)
    (backslash : c ≠ '\\') (few : ∀ more, c :: rest ≠ '"' :: '"' :: '"' :: more) :
    readMultiline .off (c :: rest) = cons? (some c) (readMultiline .off rest) := by
  have control : isPlain '\r' = false := rfl
  rw [readMultiline.eq_def .off (c :: rest)]
  split <;> simp_all

/-- Quotes right before another character are read one by one. -/
theorem readMultiline_quotes {run : Nat} (few : run ≤ 2) {c : Char} (quote : c ≠ '"')
    {more text rest : List Char} (read : readMultiline .off (c :: more) = some (text, rest)) :
    readMultiline .off (List.replicate run '"' ++ c :: more) =
      some (List.replicate run '"' ++ text, rest) := by
  have plain : isPlain '"' = true := rfl
  have second : readMultiline .off ('"' :: c :: more) = some ('"' :: text, rest) := by
    rw [readMultiline_plain plain (by decide) (by simp [quote]), read]
    rfl
  have first : readMultiline .off ('"' :: '"' :: c :: more) = some ('"' :: '"' :: text, rest) := by
    rw [readMultiline_plain plain (by decide) (by simp [quote]), second]
    rfl
  match run, few with
  | 0, _ => exact read
  | 1, _ => exact second
  | 2, _ => exact first

/-- Quotes right before the closing ones belong to the text. -/
theorem readMultiline_close {run : Nat} (few : run ≤ 2) (rest : List Char) :
    readMultiline .off (List.replicate run '"' ++ '"' :: '"' :: '"' :: '\n' :: rest) =
      some (List.replicate run '"', '\n' :: rest) := by
  match run, few with
  | 0, _ | 1, _ | 2, _ => rfl

theorem escape_eq_cons (c : Char) : ∃ more, escape c = '\\' :: more := by
  unfold escape
  split <;> exact ⟨_, rfl⟩

/-- An escape after a few quotes is read as its character. -/
theorem readMultiline_quotes_escape {run : Nat} (few : run ≤ 2) {c : Char} (escaped : Escaped c)
    {more text rest : List Char} (read : readMultiline .off more = some (text, rest)) :
    readMultiline .off (List.replicate run '"' ++ (escape c ++ more)) =
      some (List.replicate run '"' ++ c :: text, rest) := by
  have whole : readMultiline .off (escape c ++ more) = some (c :: text, rest) := by
    rw [readMultiline_escape escaped, read]
    rfl
  obtain ⟨letters, starts⟩ := escape_eq_cons c
  rw [starts, List.cons_append] at whole ⊢
  exact readMultiline_quotes few (by decide) whole

/-- A character that is neither a quote nor the end of a line is escaped or stays. -/
theorem escapeLines_of_ne {c : Char} (lineFeed : c ≠ '\n') (quote : c ≠ '"') (run : Nat)
    (text : List Char) :
    (Escaped c ∧ escapeLines run (c :: text) = escape c ++ escapeLines 0 text) ∨
      (¬ Escaped c ∧ escapeLines run (c :: text) = c :: escapeLines 0 text) := by
  have condition : (c == '\t' || c == '\\' || !isPlain c) = true ↔ Escaped c := by
    simp [Escaped, quote, or_left_comm, or_assoc]
  have written : escapeLines run (c :: text) =
      (if c == '\t' || c == '\\' || !isPlain c then escape c else [c]) ++ escapeLines 0 text := by
    rw [escapeLines]
    · exact lineFeed
    · exact quote
  by_cases escaped : Escaped c
  · exact .inl ⟨escaped, by rw [written, if_pos (condition.mpr escaped)]⟩
  · exact .inr ⟨escaped, by rw [written, if_neg (condition.not.mpr escaped)]; rfl⟩

/-- The text of a string of several lines is read back, also when it comes after a few quotes
that were counted. -/
theorem readMultiline_escapeLines (text rest : List Char) {run : Nat} (few : run ≤ 2) :
    readMultiline .off (List.replicate run '"' ++
        (escapeLines run text ++ '"' :: '"' :: '"' :: '\n' :: rest)) =
      some (List.replicate run '"' ++ text, '\n' :: rest) := by
  induction text generalizing run with
  | nil => simpa [escapeLines] using readMultiline_close few rest
  | cons c text ih =>
      have onward := ih (Nat.zero_le 2)
      simp only [List.replicate_zero, List.nil_append] at onward
      by_cases lineFeed : c = '\n'
      · subst lineFeed
        have written : escapeLines run ('\n' :: text) = '\n' :: escapeLines 0 text := rfl
        rw [written, List.cons_append]
        refine readMultiline_quotes few (by decide) ?_
        show cons? (some '\n') (readMultiline .off _) = _
        rw [onward]
        rfl
      by_cases quote : c = '"'
      · subst quote
        by_cases fewer : run < 2
        · have written : escapeLines run ('"' :: text) = '"' :: escapeLines (run + 1) text := by
            rw [escapeLines, if_pos fewer]
          have further := ih fewer
          rw [List.replicate_succ', List.append_assoc, List.append_assoc] at further
          rw [written]
          exact further
        · have written : escapeLines run ('"' :: text) = escape '"' ++ escapeLines 0 text := by
            rw [escapeLines, if_neg fewer]
          rw [written, List.append_assoc]
          exact readMultiline_quotes_escape few (.inl rfl) onward
      rcases escapeLines_of_ne lineFeed quote run text with ⟨escaped, written⟩ | ⟨plain, written⟩
      · rw [written, List.append_assoc]
        exact readMultiline_quotes_escape few escaped onward
      · simp only [Escaped, not_or, Bool.not_eq_false] at plain
        obtain ⟨_, backslash, _, plain⟩ := plain
        rw [written, List.cons_append]
        refine readMultiline_quotes few quote ?_
        rw [readMultiline_plain plain backslash (by simp [quote]), onward]
        rfl

section Literal

/-- What stands between single quotes is read as it is. -/
theorem readLiteral_append {text : List Char} (plain : ∀ c ∈ text, isPlain c = true)
    (unquoted : '\'' ∉ text) (rest : List Char) :
    readLiteral (text ++ '\'' :: rest) = some (text, rest) := by
  induction text with
  | nil => rfl
  | cons c text ih =>
      obtain ⟨first, others⟩ := List.forall_mem_cons.mp plain
      obtain ⟨quote, later⟩ := not_or.mp (List.mem_cons.not.mp unquoted)
      have read : readLiteral (c :: (text ++ '\'' :: rest)) =
          cons? (some c) (readLiteral (text ++ '\'' :: rest)) := by
        rw [readLiteral, if_pos first]
        exact Ne.symm quote
      rw [List.cons_append, read, ih others later]
      rfl

theorem readMultilineLiteral_plain {c : Char} {rest : List Char} (plain : isPlain c = true)
    (few : ∀ more, c :: rest ≠ '\'' :: '\'' :: '\'' :: more) :
    readMultilineLiteral (c :: rest) = cons? (some c) (readMultilineLiteral rest) := by
  have control : isPlain '\r' = false := rfl
  rw [readMultilineLiteral.eq_def (c :: rest)]
  split <;> simp_all

theorem readMultilineLiteral_quotes {run : Nat} (few : run ≤ 2) {c : Char} (quote : c ≠ '\'')
    {more text rest : List Char} (read : readMultilineLiteral (c :: more) = some (text, rest)) :
    readMultilineLiteral (List.replicate run '\'' ++ c :: more) =
      some (List.replicate run '\'' ++ text, rest) := by
  have plain : isPlain '\'' = true := rfl
  have second : readMultilineLiteral ('\'' :: c :: more) = some ('\'' :: text, rest) := by
    rw [readMultilineLiteral_plain plain (by simp [quote]), read]
    rfl
  have first : readMultilineLiteral ('\'' :: '\'' :: c :: more) =
      some ('\'' :: '\'' :: text, rest) := by
    rw [readMultilineLiteral_plain plain (by simp [quote]), second]
    rfl
  match run, few with
  | 0, _ => exact read
  | 1, _ => exact second
  | 2, _ => exact first

theorem readMultilineLiteral_close {run : Nat} (few : run ≤ 2) (rest : List Char) :
    readMultilineLiteral (List.replicate run '\'' ++ '\'' :: '\'' :: '\'' :: '\n' :: rest) =
      some (List.replicate run '\'', '\n' :: rest) := by
  match run, few with
  | 0, _ | 1, _ | 2, _ => rfl

theorem le_longestRun (wanted : Char) (run : Nat) (text : List Char) :
    run ≤ longestRun wanted run text := by
  induction text generalizing run with
  | nil => exact Nat.le_refl _
  | cons c text ih =>
      rw [longestRun]
      split
      · exact Nat.le_of_succ_le (ih (run + 1))
      · exact Nat.le_max_left _ _

theorem not_mem_of_longestRun_eq_zero {wanted : Char} {text : List Char}
    (none : longestRun wanted 0 text = 0) : wanted ∉ text := by
  induction text with
  | nil => exact List.not_mem_nil
  | cons c text ih =>
      rw [longestRun] at none
      split at none
      · have counted := le_longestRun wanted (0 + 1) text
        omega
      · rename_i other
        have later : longestRun wanted 0 text = 0 := by omega
        exact List.mem_cons.not.mpr (not_or.mpr ⟨Ne.symm other, ih later⟩)

/-- What stands between single quotes on several lines is read as it is, as long as no three of
them come in a row. -/
theorem readMultilineLiteral_append {text : List Char}
    (shown : ∀ c ∈ text, isPlain c = true ∨ c = '\n') (rest : List Char) {run : Nat}
    (few : longestRun '\'' run text ≤ 2) :
    readMultilineLiteral (List.replicate run '\'' ++
        (text ++ '\'' :: '\'' :: '\'' :: '\n' :: rest)) =
      some (List.replicate run '\'' ++ text, '\n' :: rest) := by
  have start := Nat.le_trans (le_longestRun '\'' run text) few
  induction text generalizing run with
  | nil => simpa using readMultilineLiteral_close start rest
  | cons c text ih =>
      obtain ⟨first, others⟩ := List.forall_mem_cons.mp shown
      rw [longestRun] at few
      by_cases quote : c = '\''
      · subst quote
        rw [if_pos rfl] at few
        have further := ih others few (Nat.le_trans (le_longestRun '\'' (run + 1) text) few)
        rw [List.replicate_succ', List.append_assoc, List.append_assoc] at further
        exact further
      · rw [if_neg quote] at few
        have onward := ih others (Nat.le_trans (Nat.le_max_right run _) few) (Nat.zero_le 2)
        simp only [List.replicate_zero, List.nil_append] at onward
        rw [List.cons_append]
        refine readMultilineLiteral_quotes start quote ?_
        have read : readMultilineLiteral (c :: (text ++ '\'' :: '\'' :: '\'' :: '\n' :: rest)) =
            cons? (some c) (readMultilineLiteral
              (text ++ '\'' :: '\'' :: '\'' :: '\n' :: rest)) := by
          rcases first with plain | rfl
          · exact readMultilineLiteral_plain plain (by simp [quote])
          · rfl
        rw [read, onward]
        rfl

end Literal

/-- A string whose first line is not empty loses nothing after the opening quotes. -/
theorem dropLineEnd_cons {c : Char} (plain : isPlain c = true) (rest : List Char) :
    dropLineEnd (c :: rest) = c :: rest := by
  unfold dropLineEnd
  split <;> simp_all [isPlain]

theorem readString?_basic {content : List Char} (few : ∀ more, content ≠ '"' :: '"' :: more) :
    readString? ('"' :: content) = readBasic content := by
  unfold readString?
  split <;> simp_all

theorem readString?_literal {content : List Char}
    (few : ∀ more, content ≠ '\'' :: '\'' :: more) :
    readString? ('\'' :: content) = readLiteral content := by
  unfold readString?
  split <;> simp_all

/-- A one-line string with escapes is read back. -/
theorem readString?_escapeLine (text rest : List Char) :
    readString? ('"' :: escapeLine text ++ ['"'] ++ '\n' :: rest) =
      some (text, '\n' :: rest) := by
  have few : ∀ more, escapeLine text ++ '"' :: '\n' :: rest ≠ '"' :: '"' :: more := by
    cases text with
    | nil => exact nofun
    | cons c text =>
        rcases escapeLine_cons c text with ⟨_, written⟩ | ⟨plain, written⟩
        · obtain ⟨letters, starts⟩ := escape_eq_cons c
          simp [written, starts]
        · have quote : c ≠ '"' := fun same => plain (.inl same)
          simp [written, quote]
  rw [List.cons_append, List.cons_append, List.append_assoc, List.singleton_append,
    readString?_basic few, readBasic_escapeLine]

/-- A one-line string without escapes is read back. -/
theorem readString?_plain {text : List Char} (plain : ∀ c ∈ text, isPlain c = true)
    (unquoted : '\'' ∉ text) (rest : List Char) :
    readString? ('\'' :: text ++ ['\''] ++ '\n' :: rest) = some (text, '\n' :: rest) := by
  have few : ∀ more, text ++ '\'' :: '\n' :: rest ≠ '\'' :: '\'' :: more := by
    cases text with
    | nil => exact nofun
    | cons c text =>
        have quote : c ≠ '\'' := by
          rintro rfl
          exact unquoted List.mem_cons_self
        simp [quote]
  rw [List.cons_append, List.cons_append, List.append_assoc, List.singleton_append,
    readString?_literal few, readLiteral_append plain unquoted]

/-- What comes after the opening quotes of a string of several lines is its content: a line end
is put there for it to be dropped, or the content starts with none. -/
theorem dropLineEnd_content {content : List Char} (lineFeed : Bool)
    (starts : lineFeed = false → ∃ c more, content = c :: more ∧ isPlain c = true) :
    dropLineEnd ((if lineFeed then ['\n'] else []) ++ content) = content := by
  cases lineFeed with
  | true => rfl
  | false =>
      obtain ⟨c, more, rfl, plain⟩ := starts rfl
      exact dropLineEnd_cons plain more

/-- A string of several lines with escapes is read back. -/
theorem readString?_escapeLines (text rest : List Char) {lineFeed : Bool}
    (flat : lineFeed = false → '\n' ∉ text) :
    readString? (multiline '"' lineFeed (escapeLines 0 text) ++ '\n' :: rest) =
      some (text, '\n' :: rest) := by
  have opened : multiline '"' lineFeed (escapeLines 0 text) ++ '\n' :: rest =
      '"' :: '"' :: '"' :: ((if lineFeed then ['\n'] else []) ++
        (escapeLines 0 text ++ '"' :: '"' :: '"' :: '\n' :: rest)) := by
    simp [multiline]
  rw [opened, readString?, dropLineEnd_content lineFeed]
  · exact readMultiline_escapeLines text rest (Nat.zero_le 2)
  · intro single
    cases text with
    | nil => exact ⟨'"', _, rfl, rfl⟩
    | cons c text =>
        have lineFeed : c ≠ '\n' := by
          rintro rfl
          exact flat single List.mem_cons_self
        by_cases quote : c = '"'
        · subst quote
          exact ⟨'"', _, rfl, rfl⟩
        rcases escapeLines_of_ne lineFeed quote 0 text with ⟨_, written⟩ | ⟨plain, written⟩
        · obtain ⟨letters, starts⟩ := escape_eq_cons c
          rw [written, starts]
          exact ⟨'\\', _, rfl, rfl⟩
        · simp only [Escaped, not_or, Bool.not_eq_false] at plain
          rw [written]
          exact ⟨c, _, rfl, plain.2.2.2⟩

/-- A string of several lines without escapes is read back. -/
theorem readString?_multilinePlain {text : List Char} {lineFeed : Bool}
    (shown : ∀ c ∈ text, isPlain c = true ∨ c = '\n')
    (flat : lineFeed = false → '\n' ∉ text) (few : longestRun '\'' 0 text ≤ 2)
    (rest : List Char) :
    readString? (multiline '\'' lineFeed text ++ '\n' :: rest) = some (text, '\n' :: rest) := by
  have opened : multiline '\'' lineFeed text ++ '\n' :: rest =
      '\'' :: '\'' :: '\'' :: ((if lineFeed then ['\n'] else []) ++
        (text ++ '\'' :: '\'' :: '\'' :: '\n' :: rest)) := by
    simp [multiline]
  rw [opened, readString?, dropLineEnd_content lineFeed]
  · exact readMultilineLiteral_append shown rest few
  · intro single
    cases text with
    | nil => exact ⟨'\'', _, rfl, rfl⟩
    | cons c text =>
        have plain : isPlain c = true := by
          rcases shown c List.mem_cons_self with plain | rfl
          · exact plain
          · exact absurd List.mem_cons_self (flat single)
        exact ⟨c, _, rfl, plain⟩

/-- Whatever way a string is written in, it is read back. -/
theorem readString?_writeString (text rest : List Char) :
    readString? (writeString text ++ '\n' :: rest) = some (text, '\n' :: rest) := by
  have shown : (TextTraits.of text).controls = false →
      ∀ c ∈ text, isPlain c = true ∨ c = '\n' := by
    intro none c member
    have controls := List.any_eq_false.mp none c member
    simpa [or_iff_not_imp_left] using controls
  have flat : (TextTraits.of text).lineFeed = false → '\n' ∉ text := by
    intro none member
    simp [TextTraits.of, member] at none
  unfold writeString
  dsimp only
  split
  · exact readString?_escapeLine text rest
  split
  · rename_i literal
    simp only [Bool.and_eq_true, Bool.not_eq_true', beq_iff_eq] at literal
    obtain ⟨⟨controls, single⟩, lineFeed⟩ := literal
    refine readString?_plain ?_ (not_mem_of_longestRun_eq_zero single) rest
    intro c member
    exact (shown controls c member).resolve_right fun same => flat lineFeed (same ▸ member)
  split
  · exact readString?_escapeLines text rest flat
  split
  · rename_i literal
    simp only [Bool.and_eq_true, Bool.not_eq_true', decide_eq_true_eq] at literal
    obtain ⟨controls, few⟩ := literal
    exact readString?_multilinePlain (shown controls) flat few rest
  split
  · exact readString?_escapeLines text rest nofun
  · exact readString?_escapeLine text rest

end DeferredTyping.Toml
