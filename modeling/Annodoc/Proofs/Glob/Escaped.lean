import Annodoc.Glob.Walk

/-!
# Escaped texts

An escaped text is a pattern for just that text. A name with special characters in it stands for
itself too, though as a pattern it is no literal: a walk then looks for it among the entries of a
directory.
-/

namespace Annodoc.Glob

/-- The characters that mean something else in a pattern. -/
abbrev IsSpecial (c : Char) : Prop := c = '?' ∨ c = '*' ∨ c = '[' ∨ c = ']'

/-- The pattern text for one character. -/
def escapedChar (c : Char) : List Char := if IsSpecial c then ['[', c, ']'] else [c]

/-- The token for one character. -/
def Token.just (c : Char) : Token := if IsSpecial c then .oneOf [.single c] else .char c

/-- The pattern for one text. -/
def Pattern.just (cs : List Char) : Pattern := cs.map Token.just

variable {c : Char} {cs ds rest : List Char} {position : Nat} {before : Option Char}
  {tail : Pattern}

/-! ## Parsing -/

theorem toList_escape (text : String) : (escape text).toList = text.toList.flatMap escapedChar :=
  String.toList_ofList

theorem tokens_special (special : IsSpecial c)
    (behind : tokens (position + 3) (some ']') rest = .ok tail) :
    tokens position before ('[' :: c :: ']' :: rest) = .ok (.oneOf [.single c] :: tail) := by
  have shut : bracketed? (c :: ']' :: rest) = some ([c], rest) := by simp [bracketed?]
  rw [tokens]
  · split
    · simp_all
    · next inside after found =>
      obtain ⟨rfl, rfl⟩ := Prod.mk.inj (Option.some.inj (shut.symm.trans found))
      have here : position + [c].length + 2 = position + 3 := rfl
      rw [here, behind]
      rfl
  · rintro more same
    obtain rfl := (List.cons.inj same).1
    revert special
    decide

theorem tokens_plain (plain : ¬ IsSpecial c)
    (behind : tokens (position + 1) (some c) rest = .ok tail) :
    tokens position before (c :: rest) = .ok (.char c :: tail) := by
  simp only [IsSpecial, not_or] at plain
  rw [tokens, behind]
  · rfl
  · exact plain.1
  · exact plain.2.1
  · rintro more bracket
    exact absurd bracket plain.2.2.1
  · exact plain.2.2.1

/-- Where a text parses behind any other, it parses behind an escaped one. -/
theorem tokens_escaped (behind : ∀ position before, tokens position before rest = .ok tail) :
    ∀ position before,
      tokens position before (cs.flatMap escapedChar ++ rest) = .ok (Pattern.just cs ++ tail) := by
  induction cs with
  | nil => exact behind
  | cons c cs ih =>
    intro position before
    rw [List.flatMap_cons, Pattern.just, List.map_cons, escapedChar, Token.just]
    split
    · next special => exact tokens_special special (ih _ _)
    · next plain => exact tokens_plain plain (ih _ _)

theorem tokens_just (cs : List Char) (position : Nat) (before : Option Char) :
    tokens position before (cs.flatMap escapedChar) = .ok (Pattern.just cs) := by
  have ended (position : Nat) (before : Option Char) : tokens position before [] = .ok [] := by
    rw [tokens]
  have parsed : tokens position before (cs.flatMap escapedChar ++ []) = .ok (Pattern.just cs ++ []) :=
    tokens_escaped ended position before
  rwa [List.append_nil, List.append_nil] at parsed

theorem parse_escape (text : String) :
    Pattern.parse (escape text) = .ok (Pattern.just text.toList) := by
  rw [Pattern.parse, toList_escape, tokens_just]

/-- A text without special characters is its own escaped text. -/
theorem flatMap_escapedChar_of_plain (plain : ∀ c ∈ cs, ¬ IsSpecial c) :
    cs.flatMap escapedChar = cs := by
  induction cs with
  | nil => rfl
  | cons c cs ih =>
    rw [List.flatMap_cons, escapedChar, if_neg (plain c List.mem_cons_self),
      ih fun d hd => plain d (List.mem_cons_of_mem c hd)]
    rfl

/-- A star and a text, as they stand behind `*` in a pattern. -/
theorem tokens_star (plain : ∀ c ∈ cs, ¬ IsSpecial c) (position : Nat) (before : Option Char) :
    tokens position before ('*' :: cs) = .ok (.sequence :: Pattern.just cs) := by
  have behind := tokens_just cs (position + 1) (some '*')
  rw [flatMap_escapedChar_of_plain plain] at behind
  have noStar : ∀ more, cs ≠ '*' :: more := by
    rintro more rfl
    exact plain '*' List.mem_cons_self (by decide)
  rw [tokens, behind]
  · rfl
  · exact fun more => noStar ('*' :: more)
  · exact noStar

/-! ## Matching -/

namespace Token

theorem just_ne_sequence (c : Char) : just c ≠ .sequence := by
  rw [just]
  split <;> simp

theorem just_ne_components (c : Char) : just c ≠ .components := by
  rw [just]
  split <;> simp

theorem accepts_just (c d : Char) : (just c).accepts d = decide (d = c) := by
  rw [just]
  split <;> simp [accepts, Specifier.accepts]

theorem literal?_just (c : Char) : (just c).literal? = if IsSpecial c then none else some c := by
  rw [just]
  split <;> rfl

end Token

namespace Pattern

/-- The pattern for a text stands for nothing else. -/
theorem accepts_just_iff : (just cs).accepts ds = true ↔ ds = cs := by
  induction cs generalizing ds with
  | nil => simp [just, accepts_nil]
  | cons c cs ih =>
    have first : just (c :: cs) = .just c :: just cs := rfl
    rw [first]
    cases ds with
    | nil => simp [accepts_cons_nil (Token.just_ne_sequence c) (Token.just_ne_components c)]
    | cons d ds =>
      rw [accepts_cons (Token.just_ne_sequence c) (Token.just_ne_components c), Token.accepts_just]
      simp [ih]

theorem mem_suffixes_iff : ds ∈ suffixes cs ↔ ds <:+ cs := by
  induction cs with
  | nil => simp [suffixes]
  | cons c cs ih => rw [suffixes, List.mem_cons, ih, List.suffix_cons_iff]

/-- A star and a text stand for what ends in the text. -/
theorem accepts_star_iff : accepts (.sequence :: just cs) ds = true ↔ cs <:+ ds := by
  rw [accepts_sequence, List.any_eq_true]
  constructor
  · rintro ⟨suffix, mem, accepted⟩
    obtain rfl := accepts_just_iff.mp accepted
    exact mem_suffixes_iff.mp mem
  · intro suffix
    exact ⟨cs, mem_suffixes_iff.mpr suffix, accepts_just_iff.mpr rfl⟩

/-- A text without special characters is a literal. -/
theorem literal?_just_of_plain (plain : ∀ c ∈ cs, ¬ IsSpecial c) :
    (just cs).literal? = some (String.ofList cs) := by
  have characters : (just cs).mapM Token.literal? = some cs := by
    induction cs with
    | nil => rfl
    | cons c cs ih =>
      have later := ih fun d hd => plain d (List.mem_cons_of_mem c hd)
      rw [just] at later
      simp [just, Token.literal?_just, plain c List.mem_cons_self, later]
  rw [literal?, characters, Option.map_some]

/-- A text with a special character is none. -/
theorem literal?_just_of_special (mem : c ∈ cs) (special : IsSpecial c) :
    (just cs).literal? = none := by
  have characters : (just cs).mapM Token.literal? = none := by
    induction cs with
    | nil => cases mem
    | cons d cs ih =>
      rw [just] at ih
      rcases List.mem_cons.mp mem with rfl | mem
      · simp [just, Token.literal?_just, special]
      · simp [just, ih mem]
  rw [literal?, characters, Option.map_none]

theorem isComponents_just : (just cs).isComponents = false := by
  cases cs with
  | nil => rfl
  | cons c cs => simp [isComponents, just, Token.just_ne_components]

end Pattern

end Annodoc.Glob
