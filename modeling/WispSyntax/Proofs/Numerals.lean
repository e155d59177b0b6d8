import Mathlib.Data.List.TakeWhile
import WispSyntax.Proofs.Characters
import WispSyntax.Proofs.Spelling

/-!
The grammar of numbers, and of names that begin with a digit. At a digit the lexer finds what the
grammar says (`Token.numeral_iff`), and so does a reader that takes one character after the other,
with a guess at what they will turn out to be and a look at the next but one
(`Token.scan_of_numeral`).
-/

namespace WispSyntax

section
variable {p : Char → Bool} {front rest : List Char}

theorem takeWhile_append_of_stop (all : ∀ c ∈ front, p c) (stop : rest.head?.any p = false) :
    (front ++ rest).takeWhile p = front := by
  rw [List.takeWhile_append_of_pos all]
  cases rest <;> simp_all

theorem dropWhile_append_of_stop (all : ∀ c ∈ front, p c) (stop : rest.head?.any p = false) :
    (front ++ rest).dropWhile p = rest := by
  rw [List.dropWhile_append_of_pos all]
  cases rest <;> simp_all

theorem drop_length_takeWhile (p : Char → Bool) (text : List Char) :
    text.drop (text.takeWhile p).length = text.dropWhile p := by
  have front := List.prefix_iff_eq_append.mp (List.takeWhile_prefix (l := text) p)
  exact List.append_cancel_left (front.trans List.takeWhile_append_dropWhile.symm)

theorem head?_dropWhile_stop (p : Char → Bool) (text : List Char) :
    (text.dropWhile p).head?.any p = false := by
  have stop := List.head?_dropWhile_not p text
  cases next : (text.dropWhile p).head? <;> simp_all

end

theorem IsNumber.exists_digit {form : NumberForm} {text : List Char} (h : IsNumber form text) :
    ∃ c tail, text = c :: tail ∧ c.isDigit := by
  cases h
  case integer ne isDigit =>
    obtain ⟨c, tail, rfl⟩ := List.exists_cons_of_ne_nil ne
    exact ⟨c, tail, rfl, isDigit c (.head _)⟩
  case float ne isDigit _ _ =>
    obtain ⟨c, tail, rfl⟩ := List.exists_cons_of_ne_nil ne
    exact ⟨c, _, rfl, isDigit c (.head _)⟩
  case marked => exact ⟨'0', _, rfl, rfl⟩

theorem IsNumber.isWordChar {form : NumberForm} {text : List Char} (h : IsNumber form text) :
    ∀ c ∈ text, Token.isWordChar c ∨ c = '.' := by
  intro c hc
  cases h
  case integer isDigit => exact .inl (Token.isWordChar_of_isDigit (isDigit c hc))
  case float whole_isDigit _ isDigit =>
    simp only [List.mem_append, List.mem_cons] at hc
    rcases hc with hc | rfl | hc
    · exact .inl (Token.isWordChar_of_isDigit (whole_isDigit c hc))
    · exact .inr rfl
    · exact .inl (Token.isWordChar_of_isDigit (isDigit c hc))
  case marked isDigit => exact .inl (Token.isWordChar_of_mem_marked isDigit c hc)

-- What is wrong with a dot after a number, if it is for nothing.
def NumberForm.dotFault : NumberForm → NumberFault
  | integer      => .float '.'
  | float        => .float '.'
  | marked radix => .digit radix '.'

-- A number or a name does not go on with these characters, the first so many of which are dropped.
inductive Ends : List Char → Nat → Prop
  | plain {after} (stop : after.head?.any Token.isWordChar = false)
      (noDot : after.head? ≠ some '.') : Ends after 0
  | bitwise {c after} (suffix : Token.isBitwiseSuffix c) : Ends ('.' :: c :: after) 0
  | arithmetic {c after} (noSuffix : ¬Token.isBitwiseSuffix c)
      (symbol : Token.isArithmeticSymbol c) : Ends ('.' :: c :: after) 1

-- A dot before the character, or before nothing, belongs to no operator.
def IsLoose (next : Option Char) : Prop :=
  ∀ c ∈ next, ¬Token.isBitwiseSuffix c ∧ ¬Token.isArithmeticSymbol c

-- The token at the front of a text that begins with a digit, and how many characters it takes up.
-- A number that is at fault takes up those before the character that is.
inductive Numeral : List Char → Token → Nat → Prop
  | number {form value after skip} (h : IsNumber form value) (ends : Ends after skip) :
      Numeral (value ++ after) (.number form (String.ofList value)) (value.length + skip)
  | name {value after skip} (h : IsDigitName value) (ends : Ends after skip) :
      Numeral (value ++ after) (.name (String.ofList value) false) (value.length + skip)
  | nameDot {value after} (h : IsDigitName value) (loose : IsLoose after.head?) :
      Numeral (value ++ '.' :: after) (.name (String.ofList value) false) value.length
  | badDigit {radix digits c after} (hasDigit : ∀ d ∈ digits, Token.hasDigit radix d)
      (wordChar : Token.isWordChar c) (noDigit : ¬Token.hasDigit radix c) :
      Numeral ('0' :: radix.mark :: digits ++ c :: after) (.badNumber (.digit radix c))
        ('0' :: radix.mark :: digits).length
  | noDigits {radix after skip} (ends : Ends after skip) :
      Numeral (['0', radix.mark] ++ after) (.badNumber (.noDigits radix)) (2 + skip)
  | markDot {radix after} (loose : IsLoose after.head?) :
      Numeral (['0', radix.mark] ++ '.' :: after) (.badNumber (.digit radix '.')) 2
  | badFraction {value c after} (h : IsNumber .float value) (letter : isLetter c) :
      Numeral (value ++ c :: after) (.badNumber (.float c)) value.length
  | numberDot {form value after} (h : IsNumber form value) (loose : IsLoose after.head?)
      (noFraction : form = .integer → after.head?.any Char.isDigit = false) :
      Numeral (value ++ '.' :: after) (.badNumber form.dotFault) value.length

namespace Token

section
variable {after rest : List Char}

theorem ofChars_eq_fraction {c : Char} (h : c.isDigit) :
    Ending.ofChars ('.' :: c :: rest) = .fraction := by
  have bitwise : isBitwiseSuffix c = false := by
    refine Bool.eq_false_iff.mpr fun suffix => ?_
    simp only [isBitwiseSuffix, Bool.or_eq_true, decide_eq_true_eq] at suffix
    rcases suffix with (((rfl | rfl) | rfl) | rfl) | rfl <;> contradiction
  have arithmetic : isArithmeticSymbol c = false := by
    refine Bool.eq_false_iff.mpr fun symbol => ?_
    simp only [isArithmeticSymbol, Bool.or_eq_true, decide_eq_true_eq] at symbol
    rcases symbol with ((((rfl | rfl) | rfl) | rfl) | rfl) | rfl <;> contradiction
  simp [Ending.ofChars, bitwise, arithmetic, h]

theorem isLoose_of_isDigit {c : Char} (h : c.isDigit) : IsLoose (some c) := by
  have fraction : Ending.ofChars ['.', c] = .fraction := ofChars_eq_fraction h
  rintro d ⟨⟩
  constructor <;> intro operator <;> simp [Ending.ofChars, operator] at fraction
  split at fraction <;> cases fraction

theorem ending_fraction {text : List Char} (h : Ending.ofChars text = .fraction) :
    ∃ c rest, text = '.' :: c :: rest ∧ c.isDigit := by
  fun_cases Ending.ofChars text <;> simp_all [Ending.ofChars]

-- What comes after a run of letters and digits ends it, or is a dot that is for no operator.
theorem ends_or_isLoose (stop : after.head?.any isWordChar = false) :
    (∃ skip, Ends after skip ∧ ∀ token fault length,
      (Ending.ofChars after).close token fault length = (token, length + skip)) ∨
    ∃ rest, after = '.' :: rest ∧ IsLoose rest.head? ∧ ∀ token fault length,
      (Ending.ofChars after).close token fault length = (.badNumber fault, length) := by
  fun_cases Ending.ofChars after
  case case1 c rest suffix => exact .inl ⟨0, .bitwise suffix, fun _ _ _ => rfl⟩
  case case2 c rest noSuffix symbol =>
    exact .inl ⟨1, .arithmetic noSuffix symbol, fun _ _ _ => rfl⟩
  case case3 c rest noSuffix noSymbol _ =>
    exact .inr ⟨c :: rest, rfl, by rintro d ⟨⟩; exact ⟨noSuffix, noSymbol⟩, fun _ _ _ => rfl⟩
  case case4 c rest noSuffix noSymbol _ =>
    exact .inr ⟨c :: rest, rfl, by rintro d ⟨⟩; exact ⟨noSuffix, noSymbol⟩, fun _ _ _ => rfl⟩
  case case5 => exact .inr ⟨[], rfl, nofun, fun _ _ _ => rfl⟩
  case case6 longer short =>
    refine .inl ⟨0, .plain stop ?_, fun _ _ _ => rfl⟩
    rcases after with _ | ⟨c, _ | ⟨d, rest⟩⟩ <;> rintro ⟨⟩
    · exact short rfl
    · exact longer d rest rfl

-- A number is closed by what comes after it.
theorem numeral_of_close {form : NumberForm} {value : List Char} (h : IsNumber form value)
    (stop : after.head?.any isWordChar = false)
    (noFraction : form = .integer → Ending.ofChars after ≠ .fraction)
    {result : Token × Nat}
    (result_eq : (Ending.ofChars after).close (.number form (String.ofList value)) form.dotFault
      value.length = result) :
    Numeral (value ++ after) result.1 result.2 := by
  rcases ends_or_isLoose stop with ⟨skip, ends, close⟩ | ⟨rest, rfl, loose, close⟩
  all_goals rw [close] at result_eq; subst result_eq
  case inl => exact .number h ends
  case inr =>
    refine .numberDot h loose fun integer => ?_
    have noFraction := noFraction integer
    rcases rest with _ | ⟨c, rest⟩
    case nil  => rfl
    case cons =>
      rw [List.head?_cons, Option.any_some, Bool.eq_false_iff]
      exact fun digit => noFraction (ofChars_eq_fraction digit)

-- A run of letters and digits, and what comes after it.
theorem exists_run (text : List Char) :
    ∃ run after, text = run ++ after ∧ (∀ c ∈ run, isWordChar c) ∧
      after.head?.any isWordChar = false := by
  refine ⟨_, _, List.takeWhile_append_dropWhile.symm, fun c => List.mem_takeWhile_imp, ?_⟩
  exact head?_dropWhile_stop isWordChar text

-- The first character that is not like those before it.
theorem exists_of_dropWhile {p : Char → Bool} {text bad : List Char} {c : Char}
    (h : text.dropWhile p = c :: bad) :
    ∃ good, text = good ++ c :: bad ∧ text.takeWhile p = good ∧ (∀ d ∈ good, p d) ∧ ¬p c := by
  have whole := List.takeWhile_append_dropWhile (p := p) (l := text)
  have first := List.head?_dropWhile_not p text
  rw [h] at whole first
  exact ⟨_, whole.symm, rfl, fun d hd => List.mem_takeWhile_imp hd, by simpa using first⟩

theorem numeral_of_readMarked (radix : Radix) {digits : List Char}
    (wordChars : ∀ c ∈ digits, isWordChar c) (stop : after.head?.any isWordChar = false) :
    let result := readMarked radix digits (Ending.ofChars after)
    Numeral ('0' :: radix.mark :: digits ++ after) result.1 result.2 := by
  simp only [readMarked]
  split
  case h_1 c bad eq =>
    obtain ⟨good, rfl, good_eq, hasDigit, noDigit⟩ := exists_of_dropWhile eq
    have wordChar : isWordChar c := wordChars c (by simp)
    have numeral : Numeral ('0' :: radix.mark :: good ++ c :: (bad ++ after)) _ _ :=
      .badDigit hasDigit wordChar noDigit
    simpa [good_eq, Nat.add_comm 2] using numeral
  case h_2 eq =>
    have hasDigit : ∀ d ∈ digits, hasDigit radix d := List.dropWhile_eq_nil_iff.mp eq
    rcases digits with _ | ⟨d, digits⟩
    case nil =>
      rcases ends_or_isLoose stop with ⟨skip, ends, close⟩ | ⟨rest, rfl, loose, close⟩
      · simpa [close] using Numeral.noDigits ends
      · simpa [close] using Numeral.markDot loose
    case cons =>
      have isNumber : IsNumber (.marked radix) ('0' :: radix.mark :: d :: digits) :=
        .marked (List.cons_ne_nil d digits) hasDigit
      exact numeral_of_close isNumber stop nofun (by simp [NumberForm.dotFault, Nat.add_comm 2])

theorem numeral_of_readFloat {whole : List Char} {c : Char} (ne : whole ≠ [])
    (isDigit : ∀ d ∈ whole, d.isDigit) (digit : c.isDigit) (rest : List Char) :
    let result := readFloat whole (c :: rest)
    Numeral (whole ++ '.' :: c :: rest) result.1 result.2 := by
  obtain ⟨run, after, rfl, wordChars, stop⟩ := exists_run rest
  have wordChars : ∀ d ∈ c :: run, isWordChar d :=
    List.forall_mem_cons.mpr ⟨isWordChar_of_isDigit digit, wordChars⟩
  rw [← List.cons_append]
  simp only [readFloat, takeWhile_append_of_stop wordChars stop,
    dropWhile_append_of_stop wordChars stop]
  split
  case h_1 d bad eq =>
    obtain ⟨good, run_eq, good_eq, digits, noDigit⟩ := exists_of_dropWhile eq
    have good_ne : good ≠ [] := by
      rintro rfl
      obtain ⟨rfl, -⟩ := List.cons.inj run_eq
      exact noDigit digit
    have letter : isLetter d :=
      ((Bool.or_eq_true _ _).mp (wordChars d (by simp [run_eq]))).resolve_right noDigit
    have numeral : Numeral (whole ++ '.' :: good ++ d :: (bad ++ after)) _ _ :=
      .badFraction (.float ne isDigit good_ne digits) letter
    rw [good_eq, run_eq]
    simpa [Nat.add_assoc, Nat.add_comm 1] using numeral
  case h_2 eq =>
    have digits : ∀ d ∈ c :: run, d.isDigit := List.dropWhile_eq_nil_iff.mp eq
    have isNumber : IsNumber .float (whole ++ '.' :: c :: run) :=
      .float ne isDigit (List.cons_ne_nil c run) digits
    have numeral := numeral_of_close isNumber stop nofun rfl
    simpa [NumberForm.dotFault, Nat.add_assoc, Nat.add_comm 1] using numeral

theorem numeral_of_readNumber {c : Char} (digit : c.isDigit) (rest : List Char) :
    let result := readNumber (c :: rest)
    Numeral (c :: rest) result.1 result.2 := by
  obtain ⟨run, after, rfl, wordChars, stop⟩ := exists_run rest
  have wordChars : ∀ d ∈ c :: run, isWordChar d :=
    List.forall_mem_cons.mpr ⟨isWordChar_of_isDigit digit, wordChars⟩
  rw [← List.cons_append]
  simp only [readNumber, takeWhile_append_of_stop wordChars stop,
    dropWhile_append_of_stop wordChars stop]
  split
  case h_1 digits eq =>
    rw [eq] at wordChars ⊢
    exact numeral_of_readMarked .hexadecimal (fun d hd => wordChars d (.tail _ (.tail _ hd))) stop
  case h_2 digits eq =>
    rw [eq] at wordChars ⊢
    exact numeral_of_readMarked .binary (fun d hd => wordChars d (.tail _ (.tail _ hd))) stop
  case h_3 hex binary =>
    split
    case isTrue all =>
      have isDigit := List.all_eq_true.mp all
      have isNumber : IsNumber .integer (c :: run) := .integer (List.cons_ne_nil c run) isDigit
      split
      case h_1 fraction =>
        obtain ⟨d, tail, rfl, digit⟩ := ending_fraction fraction
        exact numeral_of_readFloat (List.cons_ne_nil c run) isDigit digit tail
      case h_2 noFraction => exact numeral_of_close isNumber stop (fun _ => noFraction) rfl
    case isFalse letter =>
      have letter : ∃ d ∈ c :: run, ¬d.isDigit := by
        simpa only [List.all_eq_true, not_forall, exists_prop] using letter
      have isDigitName : IsDigitName (c :: run) := by
        refine ⟨⟨c, run, rfl, digit⟩, wordChars, letter, fun marked => ?_⟩
        unfold isMarked at marked
        split at marked
        · exact hex _ ‹_›
        · exact binary _ ‹_›
        · contradiction
      rcases ends_or_isLoose stop with ⟨skip, ends, close⟩ | ⟨rest, rfl, loose, close⟩
      all_goals
        have close := close (.name (String.ofList (c :: run)) false) (.float '.') 0
      case inl =>
        have skip_eq : (if Ending.ofChars after = .dropped then 1 else 0) = skip := by
          cases ending : Ending.ofChars after <;> simp_all [Ending.close]
        rw [skip_eq]
        exact .name isDigitName ends
      case inr =>
        have ending : Ending.ofChars ('.' :: rest) ≠ .dropped := by
          intro ending
          simp [ending, Ending.close] at close
        rw [if_neg ending]
        exact .nameDot isDigitName loose

end

-- What the characters that have been taken look like.
inductive Guess
  | integer
  | float
  | marked (radix : Radix)
  | name
deriving DecidableEq, Repr

-- What is done about a character.
inductive Move
  | take (guess : Guess)
  | stop
  -- The character is passed over, but not taken.
  | stopAfter
  | fail (fault : NumberFault)
deriving DecidableEq, Repr

namespace Guess

def atWordChar (taken : List Char) (c : Char) : Guess → Move
  | integer      =>
    if !isLetter c then
      .take integer
    else if taken = ['0'] ∧ c = 'x' then
      .take (marked .hexadecimal)
    else if taken = ['0'] ∧ c = 'b' then
      .take (marked .binary)
    else
      .take name
  | float        => if isLetter c then .fail (.float c) else .take float
  | marked radix => if hasDigit radix c then .take (marked radix) else .fail (.digit radix c)
  | name         => .take name

-- What a dot is for depends on the character after it.
def atDot (next : Option Char) (guess : Guess) : Move :=
  if next.any isBitwiseSuffix then
    .stop
  else if next.any isArithmeticSymbol then
    .stopAfter
  else
    match guess with
    | integer      => if next.any Char.isDigit then .take float else .fail (.float '.')
    | float        => .fail (.float '.')
    | marked radix => .fail (.digit radix '.')
    | name         => .stop

def move (taken : List Char) (c : Char) (next : Option Char) (guess : Guess) : Move :=
  if isWordChar c then
    guess.atWordChar taken c
  else if c = '.' then
    guess.atDot next
  else
    .stop

def token (taken : List Char) : Guess → Token
  | integer      => .number .integer (String.ofList taken)
  | float        => .number .float (String.ofList taken)
  | marked radix =>
    if taken.length = 2 then
      .badNumber (.noDigits radix)
    else
      .number (.marked radix) (String.ofList taken)
  | name         => .name (String.ofList taken) false

end Guess

-- Reads on from a guess at what has been taken. The result comes with the number of characters that
-- have been passed, up to the one that is at fault if there is one.
def scan (guess : Guess) (taken : List Char) : List Char → Token × Nat
  | []        => (guess.token taken, taken.length)
  | c :: rest =>
    match guess.move taken c rest.head? with
    | .take guess => scan guess (taken ++ [c]) rest
    | .stop       => (guess.token taken, taken.length)
    | .stopAfter  => (guess.token taken, taken.length + 1)
    | .fail fault => (.badNumber fault, taken.length)

-- The characters at which a guess stays as it is.
def Guess.fits : Guess → Char → Bool
  | integer,      c => c.isDigit
  | float,        c => c.isDigit
  | marked radix, c => hasDigit radix c
  | name,         c => isWordChar c

section
variable {guess : Guess} {taken front after rest : List Char} {c : Char} {next : Option Char}

theorem Guess.move_of_fits (h : guess.fits c) : guess.move taken c next = .take guess := by
  cases guess
  case integer | float =>
    simp [move, isWordChar_of_isDigit h, atWordChar, not_isLetter_of_isDigit h]
  case marked =>
    have digit : hasDigit _ c := h
    simp [move, isWordChar_of_hasDigit digit, atWordChar, digit]
  case name => exact if_pos h

theorem Guess.move_dot : guess.move taken '.' next = guess.atDot next :=
  if_neg (by simp [not_isWordChar_dot])

theorem scan_append (guess : Guess) (fits : ∀ c ∈ front, guess.fits c) :
    scan guess taken (front ++ rest) = scan guess (taken ++ front) rest := by
  induction front generalizing taken
  case nil => rw [List.nil_append, List.append_nil]
  case cons c front hi =>
    obtain ⟨here, later⟩ := List.forall_mem_cons.mp fits
    rw [List.cons_append, scan, Guess.move_of_fits here]
    exact (hi later).trans (by rw [List.append_assoc, List.singleton_append])

theorem scan_of_ends {skip : Nat} (ends : Ends after skip) :
    scan guess taken after = (guess.token taken, taken.length + skip) := by
  cases ends
  case plain stop noDot =>
    rcases after with _ | ⟨c, rest⟩
    case nil  => rfl
    case cons =>
      have move : guess.move taken c rest.head? = .stop := by
        simp_all [Guess.move]
      rw [scan, move]
      rfl
  case bitwise suffix =>
    simp [scan, Guess.move_dot, Guess.atDot, suffix]
  case arithmetic noSuffix symbol =>
    simp [scan, Guess.move_dot, Guess.atDot, noSuffix, symbol]

theorem Guess.atDot_of_isLoose (loose : IsLoose next) :
    guess.atDot next =
      match guess with
      | integer      => if next.any Char.isDigit then .take float else .fail (.float '.')
      | float        => .fail (.float '.')
      | marked radix => .fail (.digit radix '.')
      | name         => .stop := by
  have noSuffix : next.any isBitwiseSuffix = false := by
    cases next <;> simp_all [IsLoose]
  have noSymbol : next.any isArithmeticSymbol = false := by
    cases next <;> simp_all [IsLoose]
  simp only [atDot, noSuffix, noSymbol, Bool.false_eq_true, if_false]

-- What a number or a name looks like when all of it has been taken.
def Guess.ofForm : NumberForm → Guess
  | .integer      => integer
  | .float        => float
  | .marked radix => marked radix

theorem Guess.token_ofForm {form : NumberForm} {value : List Char} (h : IsNumber form value) :
    (ofForm form).token value = .number form (String.ofList value) := by
  cases h
  case marked ne _ => simp [ofForm, token, ne]
  all_goals rfl

theorem scan_mark (radix : Radix) (rest : List Char) :
    scan .integer [] ('0' :: radix.mark :: rest) =
      scan (.marked radix) ['0', radix.mark] rest := by
  have zero : Guess.move [] '0' (some radix.mark) .integer = .take .integer :=
    Guess.move_of_fits rfl
  have mark : Guess.move ['0'] radix.mark rest.head? .integer = .take (.marked radix) := by
    cases radix <;> simp [Guess.move, isWordChar, Guess.atWordChar, Radix.mark, isLetter_of_isAlpha]
  rw [scan, List.head?_cons, zero]
  simp only [List.nil_append]
  rw [scan, mark]
  rfl

theorem scan_of_isNumber {form : NumberForm} {value : List Char} (h : IsNumber form value) :
    scan .integer [] (value ++ rest) = scan (Guess.ofForm form) value rest := by
  cases h
  case integer isDigit => exact scan_append .integer isDigit
  case float whole fraction _ whole_isDigit ne isDigit =>
    obtain ⟨c, fraction, rfl⟩ := List.exists_cons_of_ne_nil ne
    have digit : c.isDigit := isDigit c (.head _)
    have dot : Guess.move whole '.' (some c) .integer = .take .float := by
      rw [Guess.move_dot, Guess.atDot_of_isLoose (isLoose_of_isDigit digit)]
      simp [digit]
    rw [List.append_assoc, scan_append .integer whole_isDigit, List.nil_append]
    rw [List.cons_append, scan, List.cons_append, List.head?_cons, dot]
    exact (scan_append .float isDigit).trans (by simp [Guess.ofForm])
  case marked radix digits _ hasDigit =>
    rw [List.cons_append, List.cons_append, scan_mark]
    exact scan_append (.marked radix) hasDigit

theorem scan_of_isDigitName {value : List Char} (h : IsDigitName value) :
    scan .integer [] (value ++ rest) = scan .name value rest := by
  obtain ⟨_, wordChars, letter, unmarked⟩ := h
  obtain ⟨c, bad, eq⟩ : ∃ c bad, value.dropWhile Char.isDigit = c :: bad := by
    refine List.exists_cons_of_ne_nil fun empty => ?_
    obtain ⟨c, mem, letter⟩ := letter
    exact letter (List.dropWhile_eq_nil_iff.mp empty c mem)
  obtain ⟨digits, rfl, -, isDigit, noDigit⟩ := exists_of_dropWhile eq
  obtain ⟨wordChar, wordChars⟩ := List.forall_mem_cons.mp (List.forall_mem_append.mp wordChars).2
  have letter : isLetter c := ((Bool.or_eq_true _ _).mp wordChar).resolve_right noDigit
  have move : Guess.move digits c (bad ++ rest).head? .integer = .take .name := by
    have noMark : ¬(digits = ['0'] ∧ c = 'x') ∧ ¬(digits = ['0'] ∧ c = 'b') := by
      constructor <;> rintro ⟨rfl, rfl⟩ <;> exact unmarked rfl
    simp [Guess.move, wordChar, Guess.atWordChar, letter, noMark]
  rw [List.append_assoc, scan_append .integer isDigit, List.nil_append]
  rw [List.cons_append, scan, move]
  exact (scan_append .name wordChars).trans (by simp)

end

-- The reader finds what the grammar says.
theorem scan_of_numeral {text : List Char} {t : Token} {n : Nat} (h : Numeral text t n) :
    scan .integer [] text = (t, n) := by
  cases h
  case number form value after skip h ends =>
    rw [scan_of_isNumber h, scan_of_ends ends, Guess.token_ofForm h]
  case name h ends => rw [scan_of_isDigitName h, scan_of_ends ends]; rfl
  case nameDot h loose =>
    rw [scan_of_isDigitName h, scan, Guess.move_dot, Guess.atDot_of_isLoose loose]
    rfl
  case badDigit radix digits c after hasDigit wordChar noDigit =>
    rw [List.cons_append, List.cons_append, scan_mark, scan_append (.marked radix) hasDigit, scan]
    simp [Guess.move, wordChar, Guess.atWordChar, noDigit]
  case noDigits radix after skip ends =>
    rw [List.cons_append, List.singleton_append, scan_mark, scan_of_ends ends]
    rfl
  case markDot radix after loose =>
    rw [List.cons_append, List.singleton_append, scan_mark, scan, Guess.move_dot,
      Guess.atDot_of_isLoose loose]
    rfl
  case badFraction value c after h letter =>
    have wordChar : isWordChar c := by simp [isWordChar, letter]
    rw [scan_of_isNumber h, scan]
    simp [Guess.ofForm, Guess.move, wordChar, Guess.atWordChar, letter]
  case numberDot form value after h loose noFraction =>
    rw [scan_of_isNumber h, scan, Guess.move_dot, Guess.atDot_of_isLoose loose]
    cases form
    case integer => simp [Guess.ofForm, noFraction rfl, NumberForm.dotFault]
    all_goals rfl

theorem readNumber_eq_scan {c : Char} (digit : c.isDigit) (rest : List Char) :
    readNumber (c :: rest) = scan .integer [] (c :: rest) :=
  (scan_of_numeral (numeral_of_readNumber digit rest)).symm

-- The grammar leaves nothing open.
theorem numeral_iff {c : Char} (digit : c.isDigit) {rest : List Char} {t : Token} {n : Nat} :
    Numeral (c :: rest) t n ↔ readNumber (c :: rest) = (t, n) := by
  constructor
  case mp =>
    intro numeral
    rw [readNumber_eq_scan digit, scan_of_numeral numeral]
  case mpr =>
    intro eq
    have numeral := numeral_of_readNumber digit rest
    rwa [eq] at numeral

end Token

theorem Numeral.length_pos {text : List Char} {t : Token} {n : Nat} (h : Numeral text t n) :
    0 < n := by
  cases h
  case number h _ | badFraction h _ | numberDot h _ _ =>
    have := List.length_pos_iff.mpr (Spelt.number h).ne_nil
    omega
  case name h _ | nameDot h _ =>
    have := List.length_pos_iff.mpr (Spelt.digitName h).ne_nil
    omega
  case badDigit => exact Nat.succ_pos _
  case noDigits => omega
  case markDot  => exact Nat.two_pos

-- What there can be at a digit.
theorem Numeral.form {text : List Char} {t : Token} {n : Nat} (h : Numeral text t n) :
    (∃ form value, t = .number form value) ∨ (∃ value, t = .name value false) ∨
    ∃ fault, t = .badNumber fault := by
  cases h
  case number        => exact .inl ⟨_, _, rfl⟩
  case name | nameDot => exact .inr (.inl ⟨_, rfl⟩)
  all_goals exact .inr (.inr ⟨_, rfl⟩)

namespace Token

variable {c : Char} {rest : List Char} {t : Token} {n : Nat}

theorem read_of_numeral (digit : c.isDigit) (h : Numeral (c :: rest) t n) :
    read c rest = (t, n - 1) := by
  rw [read, if_neg (by simp [not_isLetter_of_isDigit digit]), if_pos digit,
    (numeral_iff digit).mp h]

theorem numeral_of_read (digit : c.isDigit) (h : read c rest = (t, n)) :
    Numeral (c :: rest) t (n + 1) := by
  have numeral := numeral_of_readNumber digit rest
  obtain ⟨rfl, rfl⟩ := Prod.mk.inj ((read_of_numeral digit numeral).symm.trans h)
  rwa [Nat.sub_add_cancel numeral.length_pos]

end Token
end WispSyntax
