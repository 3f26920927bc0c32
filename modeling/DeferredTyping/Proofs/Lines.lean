import Mathlib.Data.List.TakeWhile
import DeferredTyping.Proofs.Quoting
import DeferredTyping.Toml.Document

/-!
# Lines are read back

A line of a document is the header of a table, or a key without quotes and its value.  What is
written for a number, a truth value or a string is read as that value up to the end of the line,
so each line is read as its statement and leaves the lines after it.
-/

namespace DeferredTyping.Toml

section Numbers

variable {digits : List Char}

/-- Digits without underscores are the digits of the number. -/
theorem ungroup_of_all {isDigit : Char → Bool} (underscore : isDigit '_' = false)
    (nonempty : digits ≠ []) (all : ∀ c ∈ digits, isDigit c = true) :
    ungroup isDigit digits = some digits := by
  induction digits with
  | nil => exact absurd rfl nonempty
  | cons c rest ih =>
      obtain ⟨first, others⟩ := List.forall_mem_cons.mp all
      cases rest with
      | nil => rw [ungroup, if_pos first]
      | cons d rest =>
          have apart : d ≠ '_' := by
            rintro rfl
            cases underscore.symm.trans (others _ List.mem_cons_self)
          have step : ungroup isDigit (c :: d :: rest) =
              if isDigit c then (ungroup isDigit (d :: rest)).map (c :: ·) else none := by
            rw [ungroup]
            · exact nofun
            · exact fun _ same => apart (List.cons.inj same).1
          rw [step, if_pos first, ih (List.cons_ne_nil _ _) others, Option.map_some]

/-- A number but zero is written without zeros in front of it. -/
theorem toDigits_eq_cons {number : Nat} (positive : 0 < number) :
    ∃ c more, Nat.toDigits 10 number = c :: more ∧ c ≠ '0' := by
  induction number using Nat.strongRecOn with
  | ind number ih =>
      by_cases small : number < 10
      · have digit : ∀ number < 10, 0 < number → number.digitChar ≠ '0' := by decide
        exact ⟨_, [], Nat.toDigits_of_lt_base small, digit number small positive⟩
      · obtain ⟨c, more, written, nonzero⟩ := ih (number / 10) (by omega) (by omega)
        refine ⟨c, more ++ [(number % 10).digitChar], ?_, nonzero⟩
        rw [Nat.toDigits_of_base_le (by decide) (Nat.le_of_not_lt small), written]
        rfl

theorem isDigit_of_mem_toDigits (number : Nat) :
    ∀ c ∈ Nat.toDigits 10 number, c.isDigit = true :=
  fun _ member => Nat.isDigit_of_mem_toDigits (by decide) (by decide) member

/-- A number is written with a digit first. -/
theorem toDigits_starts (number : Nat) :
    ∃ c more, Nat.toDigits 10 number = c :: more ∧ c.isDigit = true := by
  obtain ⟨c, more, written⟩ := List.exists_cons_of_ne_nil (@Nat.toDigits_ne_nil number 10)
  exact ⟨c, more, written, isDigit_of_mem_toDigits number c (written ▸ List.mem_cons_self)⟩

theorem decimalDigits?_toDigits (number : Nat) :
    decimalDigits? (Nat.toDigits 10 number) = some (Nat.toDigits 10 number) := by
  have whole : ungroup Char.isDigit (Nat.toDigits 10 number) = some (Nat.toDigits 10 number) :=
    ungroup_of_all (by decide) Nat.toDigits_ne_nil (isDigit_of_mem_toDigits number)
  rw [decimalDigits?, whole]
  rcases Nat.eq_zero_or_pos number with rfl | positive
  · rfl
  · obtain ⟨c, more, written, nonzero⟩ := toDigits_eq_cons positive
    rw [written]
    split
    · rename_i same
      cases same
      exact absurd rfl nonzero
    · rfl

theorem splitSign_of_isDigit {c : Char} (digit : c.isDigit = true) (more : List Char) :
    splitSign (c :: more) = (false, c :: more) := by
  unfold splitSign
  split
  · rename_i same
    cases same
    cases digit
  · rename_i same
    cases same
    cases digit
  · rfl

theorem integer?_toDigits (number : Nat) :
    integer? (Nat.toDigits 10 number) = some (number : Int) := by
  have digit := isDigit_of_mem_toDigits number
  have unsigned : splitSign (Nat.toDigits 10 number) = (false, Nat.toDigits 10 number) := by
    obtain ⟨c, more, written, first⟩ := toDigits_starts number
    rw [written]
    exact splitSign_of_isDigit first more
  have back : Nat.ofDigitChars 10 (Nat.toDigits 10 number) 0 = number :=
    Nat.ofDigitChars_toDigits (by decide) (by decide)
  rw [integer?, unsigned]
  · simp only [decimalDigits?_toDigits, Option.map_some, back]
    rfl
  -- The second digit is no letter of a base.
  all_goals
    intro _ same
    have letter := digit _ (same ▸ List.mem_cons_of_mem _ List.mem_cons_self)
    cases letter

theorem scalar?_toDigits (number : Nat) :
    scalar? (Nat.toDigits 10 number) = some (.integer number) := by
  have digit := isDigit_of_mem_toDigits number
  have word : ∀ {letter more}, letter.isDigit = false →
      (Nat.toDigits 10 number == letter :: more) = false := by
    intro letter more other
    refine beq_eq_false_iff_ne.mpr fun same => ?_
    cases other.symm.trans (digit letter (same ▸ List.mem_cons_self))
  rw [scalar?, word (by decide), word (by decide), integer?_toDigits]
  rfl

end Numbers

/-- A written scalar goes up to the end of its line. -/
theorem splitScalar_append {token : List Char}
    (whole : (token.all fun c => !endsScalar c) = true) (rest : List Char) :
    splitScalar (token ++ '\n' :: rest) = (token, '\n' :: rest) := by
  have taken : (token ++ '\n' :: rest).takeWhile (fun c => !endsScalar c) = token := by
    rw [List.takeWhile_append_of_pos (List.all_eq_true.mp whole)]
    exact List.append_nil token
  have dropped : (token ++ '\n' :: rest).dropWhile (fun c => !endsScalar c) = '\n' :: rest := by
    rw [List.dropWhile_append_of_pos (List.all_eq_true.mp whole)]
    rfl
  rw [splitScalar, taken, dropped]
  dsimp only
  split
  · rename_i same
    cases same
  · rfl

/-- The value is read back from how it is written, up to the end of the line. -/
structure WrittenAs (value : Value) (written : List Char) : Prop where
  starts : ∃ c more, written = c :: more ∧ isBlank c = false
  read : ∀ fuel depth rest, readValue? (fuel + 1) depth (written ++ '\n' :: rest) =
    some (value, '\n' :: rest)

theorem writtenAs_of_scalar? {value : Value} {c : Char} {more : List Char}
    (start : c ≠ '[' ∧ c ≠ '{' ∧ c ≠ '"' ∧ c ≠ '\'')
    (whole : ((c :: more).all fun other => !endsScalar other) = true)
    (read : scalar? (c :: more) = some value) :
    WrittenAs value (c :: more) := by
  have unblank : isBlank c = false := by
    have first := List.all_eq_true.mp whole c List.mem_cons_self
    simp only [endsScalar, Bool.not_eq_true', Bool.or_eq_false_iff] at first
    exact first.1.1.1.1.1.1.1
  refine ⟨⟨c, more, rfl, unblank⟩, fun fuel depth rest => ?_⟩
  obtain ⟨list, table, basic, literal⟩ := start
  rw [readValue?, splitScalar_append whole]
  · dsimp only
    rw [read]
    rfl
  all_goals simp_all

theorem endsScalar_of_isDigit {c : Char} (digit : c.isDigit = true) : endsScalar c = false := by
  by_contra ends
  simp only [endsScalar, isBlank, Bool.not_eq_false, Bool.or_eq_true, beq_iff_eq] at ends
  rcases ends with (((((((rfl | rfl) | rfl) | rfl) | rfl) | rfl) | rfl) | rfl) | rfl <;> cases digit

theorem writtenAs_number (number : Nat) :
    WrittenAs (.integer number) (Nat.toDigits 10 number) := by
  have digit := isDigit_of_mem_toDigits number
  have read := scalar?_toDigits number
  obtain ⟨c, more, written, first⟩ := toDigits_starts number
  rw [written] at digit read ⊢
  have whole : ((c :: more).all fun other => !endsScalar other) = true := by
    refine List.all_eq_true.mpr fun other member => ?_
    rw [endsScalar_of_isDigit (digit other member)]
    rfl
  refine writtenAs_of_scalar? ⟨?_, ?_, ?_, ?_⟩ whole read
  all_goals
    rintro rfl
    cases first

theorem writtenAs_boolean (value : Bool) :
    WrittenAs (.boolean value) (if value then "true" else "false").toList := by
  cases value with
  | true => exact writtenAs_of_scalar? (by decide) (by decide) rfl
  | false => exact writtenAs_of_scalar? (by decide) (by decide) rfl

theorem starts_of_readString? {text : List Char} {found : List Char × List Char}
    (read : readString? text = some found) :
    (∃ more, text = '"' :: more) ∨ ∃ more, text = '\'' :: more := by
  unfold readString? at read
  split at read
  · exact .inl ⟨_, rfl⟩
  · exact .inl ⟨_, rfl⟩
  · exact .inr ⟨_, rfl⟩
  · exact .inr ⟨_, rfl⟩
  · cases read

theorem writtenAs_string (text : String) :
    WrittenAs (.string text) (writeString text.toList) := by
  have starts : ∃ c more, writeString text.toList = c :: more ∧ isBlank c = false := by
    have quoted := starts_of_readString? (readString?_writeString text.toList [])
    cases written : writeString text.toList with
    | nil => simp [written] at quoted
    | cons c more =>
        refine ⟨c, more, rfl, ?_⟩
        rw [written] at quoted
        rcases quoted with ⟨_, same⟩ | ⟨_, same⟩ <;> cases same <;> rfl
  refine ⟨starts, fun fuel depth rest => ?_⟩
  have read := readString?_writeString text.toList rest
  have step : readValue? (fuel + 1) depth (writeString text.toList ++ '\n' :: rest) =
      (readString? (writeString text.toList ++ '\n' :: rest)).map
        fun found => (.string (String.ofList found.1), found.2) := by
    rcases starts_of_readString? read with ⟨more, starts⟩ | ⟨more, starts⟩
    · rw [starts]
      cases depth <;> rfl
    · rw [starts]
      cases depth <;> rfl
  rw [step, read, Option.map_some, String.ofList_toList]

section Keys

/-- A key that needs no quotes. -/
def Bare (key : List Char) : Prop :=
  key ≠ [] ∧ key.all isKeyChar = true

variable {key : List Char} {c : Char} {rest : List Char}

theorem readKeyPart?_bare (bare : Bare key) (ends : isKeyChar c = false) :
    readKeyPart? (key ++ c :: rest) = some (String.ofList key, c :: rest) := by
  obtain ⟨nonempty, all⟩ := bare
  have whole := List.all_eq_true.mp all
  have taken : (key ++ c :: rest).takeWhile isKeyChar = key := by
    rw [List.takeWhile_append_of_pos whole, List.takeWhile_cons_of_neg (by simp [ends])]
    exact List.append_nil key
  have dropped : (key ++ c :: rest).dropWhile isKeyChar = c :: rest := by
    rw [List.dropWhile_append_of_pos whole, List.dropWhile_cons_of_neg (by simp [ends])]
  obtain ⟨first, more, rfl⟩ := List.exists_cons_of_ne_nil nonempty
  have letter := whole first List.mem_cons_self
  have unquoted : ∀ quote : Char, isKeyChar quote = false → ∀ tail,
      first :: more ++ c :: rest ≠ quote :: tail := by
    rintro quote other tail same
    cases (List.cons.inj same).1
    cases other.symm.trans letter
  rw [readKeyPart?, taken]
  · dsimp only
    rw [dropped]
  · exact fun _ => unquoted '"' (by decide) _
  · exact fun _ => unquoted '\'' (by decide) _
  · exact fun _ => unquoted '"' (by decide) _
  · exact fun _ => unquoted '\'' (by decide) _

theorem readKey?_bare (bare : Bare key) (ends : isKeyChar c = false)
    (single : ∀ more, dropBlanks (c :: rest) ≠ '.' :: more) :
    readKey? (key ++ c :: rest) = some ([String.ofList key], dropBlanks (c :: rest)) := by
  rw [readKey?, nestingLimit, readParts?, readKeyPart?_bare bare ends]
  dsimp only [bind, Option.bind]
  split
  · rename_i more same
    exact absurd same (single more)
  · rfl

/-- The first character of a key starts no other thing. -/
theorem Bare.exists_cons (bare : Bare key) :
    ∃ first more, key = first :: more ∧ isKeyChar first = true := by
  obtain ⟨nonempty, all⟩ := bare
  obtain ⟨first, more, rfl⟩ := List.exists_cons_of_ne_nil nonempty
  exact ⟨first, more, rfl, List.all_eq_true.mp all first List.mem_cons_self⟩

theorem ne_of_isKeyChar {first other : Char} (letter : isKeyChar first = true)
    (apart : isKeyChar other = false) : first ≠ other := by
  rintro rfl
  cases apart.symm.trans letter

theorem isBlank_of_isKeyChar {first : Char} (letter : isKeyChar first = true) :
    isBlank first = false := by
  have space : first ≠ ' ' := ne_of_isKeyChar letter (by decide)
  have tab : first ≠ '\t' := ne_of_isKeyChar letter (by decide)
  simp [isBlank, space, tab]

theorem dropLines_of_isKeyChar {first : Char} (letter : isKeyChar first = true)
    (rest : List Char) : dropLines false (first :: rest) = some (first :: rest) := by
  rw [dropLines, if_neg (by simp [isBlank_of_isKeyChar letter]),
    if_neg (ne_of_isKeyChar letter (by decide))]
  · exact ne_of_isKeyChar letter (by decide)
  · exact fun _ same => absurd same (ne_of_isKeyChar letter (by decide))

end Keys

variable {key written : List Char} {value : Value}

theorem WrittenAs.dropBlanks (writes : WrittenAs value written) (rest : List Char) :
    dropBlanks (' ' :: (written ++ rest)) = written ++ rest := by
  obtain ⟨c, text, rfl, unblank⟩ := writes.starts
  rw [Toml.dropBlanks, List.dropWhile_cons_of_pos (by decide), List.cons_append,
    List.dropWhile_cons_of_neg (by simp [unblank])]

theorem readStatement?_pair (bare : Bare key) (writes : WrittenAs value written) (fuel : Nat)
    (rest : List Char) :
    readStatement? (fuel + 1) (key ++ ' ' :: '=' :: ' ' :: (written ++ '\n' :: rest)) =
      some (.pair [String.ofList key] value, '\n' :: rest) := by
  have named : readKey? (key ++ ' ' :: '=' :: ' ' :: (written ++ '\n' :: rest)) =
      some ([String.ofList key], '=' :: ' ' :: (written ++ '\n' :: rest)) :=
    readKey?_bare bare (by decide) nofun
  have equals : dropBlanks ('=' :: ' ' :: (written ++ '\n' :: rest)) =
      '=' :: ' ' :: (written ++ '\n' :: rest) := rfl
  have opens : ∀ text, key ++ ' ' :: '=' :: ' ' :: (written ++ '\n' :: rest) ≠ '[' :: text := by
    obtain ⟨first, more, rfl, letter⟩ := bare.exists_cons
    intro text same
    cases (List.cons.inj same).1
    cases letter
  rw [readStatement?, named]
  · simp only [Option.bind_eq_bind, Option.bind_some, equals, writes.dropBlanks, writes.read]
    rfl
  · exact fun _ => opens _
  · exact opens

theorem readStatements?_pair (bare : Bare key) (writes : WrittenAs value written) (fuel : Nat)
    (rest : List Char) :
    readStatements? (fuel + 1) (key ++ ' ' :: '=' :: ' ' :: (written ++ '\n' :: rest)) =
      (readStatements? fuel rest).map (.pair [String.ofList key] value :: ·) := by
  have statement := fun fuel => readStatement?_pair bare writes fuel rest
  obtain ⟨first, more, rfl, letter⟩ := bare.exists_cons
  rw [List.cons_append] at statement ⊢
  simp only [readStatements?, dropLines_of_isKeyChar letter, Option.bind_eq_bind,
    Option.bind_some, statement, dropRestOfLine]
  cases readStatements? fuel rest <;> rfl

/-- The header of a table with a line of its own. -/
theorem readStatements?_table (bare : Bare key) (fuel : Nat) (rest : List Char) :
    readStatements? (fuel + 1) ('[' :: (key ++ ']' :: '\n' :: rest)) =
      (readStatements? fuel rest).map (.table [String.ofList key] :: ·) := by
  have named : readKey? (key ++ ']' :: '\n' :: rest) =
      some ([String.ofList key], ']' :: '\n' :: rest) :=
    readKey?_bare bare (by decide) nofun
  have unblank : dropBlanks (key ++ ']' :: '\n' :: rest) = key ++ ']' :: '\n' :: rest := by
    obtain ⟨first, more, rfl, letter⟩ := bare.exists_cons
    rw [Toml.dropBlanks, List.cons_append,
      List.dropWhile_cons_of_neg (by simp [isBlank_of_isKeyChar letter])]
  have opens : ∀ text, key ++ ']' :: '\n' :: rest ≠ '[' :: text := by
    obtain ⟨first, more, rfl, letter⟩ := bare.exists_cons
    intro text same
    cases (List.cons.inj same).1
    cases letter
  have statement : ∀ fuel, readStatement? fuel ('[' :: (key ++ ']' :: '\n' :: rest)) =
      some (.table [String.ofList key], '\n' :: rest) := by
    intro fuel
    rw [readStatement?, readHeader?, unblank, named]
    · rfl
    · exact opens
  have header : dropLines false ('[' :: (key ++ ']' :: '\n' :: rest)) =
      some ('[' :: (key ++ ']' :: '\n' :: rest)) := rfl
  simp only [readStatements?, header, Option.bind_eq_bind, Option.bind_some, statement,
    dropRestOfLine]
  cases readStatements? fuel rest <;> rfl

end DeferredTyping.Toml
