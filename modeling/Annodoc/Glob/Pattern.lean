/-!
# Glob patterns

Patterns for paths: `?` stands for any character, `*` for any run of them, `**` as a whole
component for any number of components, and brackets for one of the characters in them, or with
`!` for any other.
-/

namespace Annodoc.Glob

/-- What stands between brackets: a character or a range. -/
inductive Specifier where
  | single (c : Char)
  | range (lo hi : Char)
  deriving DecidableEq, Repr

inductive Token where
  | char (c : Char)
  | anyChar
  | sequence
  | components
  | oneOf (specifiers : List Specifier)
  | noneOf (specifiers : List Specifier)
  deriving DecidableEq, Repr

abbrev Pattern := List Token

inductive PatternFault where
  | tooManyStars
  | partOfComponent
  | invalidRange
  deriving DecidableEq, Repr

/-- A text that is no pattern. The position counts characters. -/
structure PatternError where
  position : Nat
  fault : PatternFault
  deriving DecidableEq, Repr

def PatternFault.text : PatternFault → String
  | .tooManyStars => "wildcards are either regular `*` or recursive `**`"
  | .partOfComponent => "recursive wildcards must form a single path component"
  | .invalidRange => "invalid range pattern"

def PatternError.message (e : PatternError) : String :=
  "Pattern syntax error near position " ++ toString e.position ++ ": " ++ e.fault.text

/-- A dash between two characters makes a range. -/
def specifiers : List Char → List Specifier
  | lo :: '-' :: hi :: rest => .range lo hi :: specifiers rest
  | c :: rest => .single c :: specifiers rest
  | [] => []

/-- The characters up to the closing bracket, which are one at least, and those after it. The first
one never closes. -/
def bracketed? : List Char → Option (List Char × List Char)
  | [] => none
  | c :: cs =>
    match cs.dropWhile (· ≠ ']') with
    | [] => none
    | _ :: rest => some (c :: cs.takeWhile (· ≠ ']'), rest)

theorem length_of_bracketed? {cs inside rest : List Char}
    (h : bracketed? cs = some (inside, rest)) : inside.length + rest.length + 1 = cs.length := by
  cases cs with
  | nil => simp [bracketed?] at h
  | cons c cs =>
    have all := congrArg List.length (List.takeWhile_append_dropWhile (p := (· ≠ ']')) (l := cs))
    rw [bracketed?] at h
    split at h
    · simp at h
    · rename_i d ds hd
      rw [hd] at all
      simp only [Option.some.injEq, Prod.mk.injEq] at h
      obtain ⟨rfl, rfl⟩ := h
      simp only [List.length_append, List.length_cons] at all ⊢
      omega

/-- The tokens of a text from `position` on, after the character `before`. -/
def tokens (position : Nat) (before : Option Char) (cs : List Char) :
    Except PatternError Pattern :=
  match cs with
  | [] => .ok []
  | '?' :: rest => return .anyChar :: (← tokens (position + 1) (some '?') rest)
  | '*' :: rest =>
    match rest with
    | '*' :: '*' :: _ => .error ⟨position + 2, .tooManyStars⟩
    | '*' :: rest =>
      if before.any (· ≠ '/') then .error ⟨position - 1, .partOfComponent⟩ else
        match rest with
        | [] => .ok [.components]
        | '/' :: rest => return .components :: (← tokens (position + 3) (some '/') rest)
        | _ => .error ⟨position + 2, .partOfComponent⟩
    | rest => return .sequence :: (← tokens (position + 1) (some '*') rest)
  | '[' :: '!' :: rest =>
    match _ : bracketed? rest with
    | none => .error ⟨position, .invalidRange⟩
    | some (inside, after) =>
      return .noneOf (specifiers inside) ::
        (← tokens (position + inside.length + 3) (some ']') after)
  | '[' :: rest =>
    match _ : bracketed? rest with
    | none => .error ⟨position, .invalidRange⟩
    | some (inside, after) =>
      return .oneOf (specifiers inside) ::
        (← tokens (position + inside.length + 2) (some ']') after)
  | c :: rest => return .char c :: (← tokens (position + 1) (some c) rest)
termination_by cs.length
decreasing_by
  all_goals simp_all
  all_goals try omega
  all_goals
    have := length_of_bracketed? ‹_›
    omega

def Pattern.parse (text : String) : Except PatternError Pattern := tokens 0 none text.toList

/-- The one character that a token stands for. -/
def Token.literal? : Token → Option Char
  | .char c => some c
  | _ => none

/-- The text of a pattern that stands for nothing else. -/
def Pattern.literal? (p : Pattern) : Option String :=
  (p.mapM Token.literal?).map String.ofList

/-- The pattern text that stands for just the given text. -/
def escape (text : String) : String :=
  String.ofList (text.toList.flatMap fun c =>
    if c = '?' ∨ c = '*' ∨ c = '[' ∨ c = ']' then ['[', c, ']'] else [c])

def Specifier.accepts (c : Char) : Specifier → Bool
  | .single d => c = d
  | .range lo hi => lo ≤ c && c ≤ hi

/-- Whether a token that stands for one character stands for `c`. -/
def Token.accepts (c : Char) : Token → Bool
  | .char d => c = d
  | .anyChar => true
  | .oneOf specifiers => specifiers.any (Specifier.accepts c)
  | .noneOf specifiers => !specifiers.any (Specifier.accepts c)
  | .sequence | .components => false

/-- All ends of a text, the whole text first. -/
def suffixes : List Char → List (List Char)
  | [] => [[]]
  | c :: cs => (c :: cs) :: suffixes cs

/-- The ends of a text behind a slash, and the empty one. -/
def componentStarts : List Char → List (List Char)
  | [] => [[]]
  | c :: cs => if c = '/' then cs :: componentStarts cs else componentStarts cs

/-- Whether one of the marks holds here or at a later place, for every place. -/
def orLater : List Bool → List Bool
  | [] => []
  | b :: bs =>
    let later := orLater bs
    (b || later.headD false) :: later

/-- Whether a mark holds at one of the component starts of an end, for every end of a text. -/
def atStarts : List Char → List Bool → List Bool
  | [], bs => [bs.headD false]
  | c :: cs, bs =>
    let later := atStarts cs bs.tail
    (c = '/' && bs.tail.headD false || later.headD false) :: later

/-- Whether a pattern stands for an end of a text, for every end, the whole text first. All ends are
settled together, so no end is matched twice with the same rest of the pattern. -/
def Pattern.acceptsEnds : Pattern → List Char → List Bool
  | [], cs => cs.map (fun _ => false) ++ [true]
  | .sequence :: p, cs => orLater (Pattern.acceptsEnds p cs)
  | .components :: p, cs =>
    let ends := Pattern.acceptsEnds p cs
    List.zipWith or ends (atStarts cs ends)
  | t :: p, cs =>
    List.zipWith (fun c b => t.accepts c && b) cs (Pattern.acceptsEnds p cs).tail ++ [false]

/-- Whether a pattern stands for a whole text, in which a slash is a character like any other. -/
def Pattern.accepts (p : Pattern) (cs : List Char) : Bool := (p.acceptsEnds cs).headD false

namespace Pattern

attribute [local simp] acceptsEnds orLater atStarts

theorem acceptsEnds_ne_nil (p : Pattern) (cs : List Char) : p.acceptsEnds cs ≠ [] := by
  induction p with
  | nil => simp
  | cons t p ih =>
    obtain ⟨b, bs, h⟩ := List.exists_cons_of_ne_nil ih
    cases t <;> cases cs <;> simp [h]

/-- The marks of a text are its own mark, then those of the text without its first character. -/
theorem acceptsEnds_cons (p : Pattern) (c : Char) (cs : List Char) :
    p.acceptsEnds (c :: cs) = p.accepts (c :: cs) :: p.acceptsEnds cs := by
  rw [accepts]
  induction p with
  | nil => simp
  | cons t p ih =>
    obtain ⟨b, bs, h⟩ := List.exists_cons_of_ne_nil (acceptsEnds_ne_nil p cs)
    obtain ⟨a, ha⟩ : ∃ a, acceptsEnds p (c :: cs) = a :: acceptsEnds p cs := ⟨_, ih⟩
    cases t <;> simp [ha, h]

theorem acceptsEnds_nil (p : Pattern) : p.acceptsEnds [] = [p.accepts []] := by
  rw [accepts]
  induction p with
  | nil => simp
  | cons t p ih =>
    obtain ⟨a, ha⟩ : ∃ a, acceptsEnds p [] = [a] := ⟨_, ih⟩
    cases t <;> simp [ha]

theorem orLater_acceptsEnds (p : Pattern) (cs : List Char) :
    (orLater (p.acceptsEnds cs)).headD false = (suffixes cs).any p.accepts := by
  induction cs with
  | nil => simp [acceptsEnds_nil, suffixes]
  | cons c cs ih =>
    rw [acceptsEnds_cons, orLater, List.headD_cons, ih, suffixes, List.any_cons]

theorem atStarts_acceptsEnds (p : Pattern) (cs : List Char) :
    (atStarts cs (p.acceptsEnds cs)).headD false = (componentStarts cs).any p.accepts := by
  induction cs with
  | nil => simp [acceptsEnds_nil, componentStarts]
  | cons c cs ih =>
    rw [acceptsEnds_cons, atStarts, List.tail_cons, List.headD_cons, ih, componentStarts]
    by_cases h : c = '/' <;> simp [h, accepts]

/-- The empty pattern stands for the empty text. -/
theorem accepts_nil (cs : List Char) : accepts [] cs = cs.isEmpty := by
  cases cs <;> simp [accepts]

theorem accepts_sequence (p : Pattern) (cs : List Char) :
    accepts (.sequence :: p) cs = (suffixes cs).any p.accepts := by
  rw [accepts, acceptsEnds, orLater_acceptsEnds]

theorem accepts_components (p : Pattern) (cs : List Char) :
    accepts (.components :: p) cs = (cs :: componentStarts cs).any p.accepts := by
  rw [List.any_cons, ← atStarts_acceptsEnds, accepts, acceptsEnds, accepts]
  obtain ⟨b, bs, h⟩ := List.exists_cons_of_ne_nil (acceptsEnds_ne_nil p cs)
  cases cs <;> simp [h]

/-- A token for one character takes the first one. -/
theorem accepts_cons {t : Token} (ns : t ≠ .sequence) (nc : t ≠ .components) (p : Pattern)
    (c : Char) (cs : List Char) :
    accepts (t :: p) (c :: cs) = (t.accepts c && p.accepts cs) := by
  obtain ⟨b, bs, h⟩ := List.exists_cons_of_ne_nil (acceptsEnds_ne_nil p cs)
  obtain ⟨a, ha⟩ : ∃ a, acceptsEnds p (c :: cs) = a :: acceptsEnds p cs :=
    ⟨_, acceptsEnds_cons p c cs⟩
  cases t <;> simp_all [accepts]

theorem accepts_cons_nil {t : Token} (ns : t ≠ .sequence) (nc : t ≠ .components)
    (p : Pattern) : accepts (t :: p) [] = false := by
  cases t <;> simp_all [accepts]

end Pattern

end Annodoc.Glob
