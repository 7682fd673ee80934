import Annodoc.CommandLine
import Annodoc.Proofs.Grammar.Token

/-!
# Strictness on the command line

Strictness is asked for by an argument of its own. It can stand in front of any arguments that do not
ask for it themselves, and changes nothing else of what they ask for.
-/

namespace Annodoc.CommandLine
open Grammar (bind_eq_ok_iff)

namespace Options

def asStrict (o : Options) : Options := { o with strict := true }

variable {o o' : Options} {took : Bool}

theorem setFlag_asStrict {flag : Flag} (h : o.setFlag flag = .ok o') (lax : o'.strict = false) :
    o.strict = false ∧ o.asStrict.setFlag flag = .ok o'.asStrict := by
  cases flag with
  | strict =>
    simp only [setFlag] at h
    split at h
    · cases h
    · obtain rfl := Except.ok.inj h
      cases lax
  | showPrivate =>
    simp only [setFlag] at h ⊢
    split at h
    · cases h
    next fresh =>
      obtain rfl := Except.ok.inj h
      exact ⟨lax, if_neg fresh⟩
  | help | version => cases h

theorem set_asStrict {setting : Setting} {value : String} (h : o.set setting value = .ok o')
    (lax : o'.strict = false) :
    o.strict = false ∧ o.asStrict.set setting value = .ok o'.asStrict := by
  cases setting with
  | exclude =>
    obtain rfl := Except.ok.inj h
    exact ⟨lax, rfl⟩
  | format | output | extension =>
    simp only [set] at h ⊢
    split at h
    · cases h
    next fresh =>
      obtain rfl := Except.ok.inj h
      exact ⟨lax, if_neg fresh⟩

theorem addPath_asStrict {path : String} (h : o.addPath path = .ok o') (lax : o'.strict = false) :
    o.strict = false ∧ o.asStrict.addPath path = .ok o'.asStrict := by
  simp only [addPath] at h ⊢
  split at h
  · cases h
  next named =>
    obtain rfl := Except.ok.inj h
    exact ⟨lax, if_neg named⟩

theorem setNext_asStrict {setting : Setting} {next : List String}
    (h : o.setNext setting next = .ok o') (lax : o'.strict = false) :
    o.strict = false ∧ o.asStrict.setNext setting next = .ok o'.asStrict := by
  cases next with
  | nil => cases h
  | cons value rest =>
    simp only [setNext] at h ⊢
    split at h
    · cases h
    next fit =>
      rw [if_neg fit]
      exact set_asStrict h lax

/-- An attempt stays what it is when it also tells whether it took the next argument. -/
theorem andTook_asStrict {x y : Except Halt Options} {b : Bool}
    (same : ∀ o', x = .ok o' → o'.strict = false → o.strict = false ∧ y = .ok o'.asStrict)
    (h : (do let o ← x; .ok (o, b)) = .ok (o', took)) (lax : o'.strict = false) :
    o.strict = false ∧ (do let o ← y; .ok (o, b)) = .ok (o'.asStrict, took) := by
  obtain ⟨set, done, pair⟩ := bind_eq_ok_iff.mp h
  cases pair
  obtain ⟨before, done'⟩ := same o' done lax
  exact ⟨before, bind_eq_ok_iff.mpr ⟨_, done', rfl⟩⟩

theorem addLetters_asStrict {next : List String} {cs : List Char}
    (h : addLetters next o cs = .ok (o', took)) (lax : o'.strict = false) :
    o.strict = false ∧ addLetters next o.asStrict cs = .ok (o'.asStrict, took) := by
  induction cs generalizing o with
  | nil =>
    cases h
    exact ⟨lax, rfl⟩
  | cons c cs ih =>
    rw [addLetters] at h ⊢
    cases named : shortName? c with
    | none => simp [named] at h
    | some what =>
      cases what with
      | inl flag =>
        simp only [named, bind_eq_ok_iff] at h ⊢
        obtain ⟨mid, set, h⟩ := h
        obtain ⟨still, later⟩ := ih h
        obtain ⟨first, set'⟩ := setFlag_asStrict set still
        exact ⟨first, _, set', later⟩
      | inr setting =>
        simp only [named] at h ⊢
        split at h
        · exact andTook_asStrict (fun _ => setNext_asStrict) h lax
        · exact andTook_asStrict (fun _ => set_asStrict) h lax
        · exact andTook_asStrict (fun _ => set_asStrict) h lax

theorem addLong_asStrict {next : List String} {cs : List Char}
    (h : addLong next o cs = .ok (o', took)) (lax : o'.strict = false) :
    o.strict = false ∧ addLong next o.asStrict cs = .ok (o'.asStrict, took) := by
  simp only [addLong] at h ⊢
  cases named : longName? (String.ofList (splitEquals cs).1) with
  | none => simp [named] at h
  | some what =>
    cases what with
    | inl flag =>
      cases value : (splitEquals cs).2 with
      | some value => simp [named, value] at h
      | none =>
        simp only [named, value] at h ⊢
        exact andTook_asStrict (fun _ => setFlag_asStrict) h lax
    | inr setting =>
      cases value : (splitEquals cs).2 with
      | some value =>
        simp only [named, value] at h ⊢
        exact andTook_asStrict (fun _ => set_asStrict) h lax
      | none =>
        simp only [named, value] at h ⊢
        exact andTook_asStrict (fun _ => setNext_asStrict) h lax

theorem foldlM_addPath_asStrict {paths : List String} (h : paths.foldlM addPath o = .ok o')
    (lax : o'.strict = false) :
    o.strict = false ∧ paths.foldlM addPath o.asStrict = .ok o'.asStrict := by
  induction paths generalizing o with
  | nil =>
    cases h
    exact ⟨lax, rfl⟩
  | cons path paths ih =>
    obtain ⟨mid, first, h⟩ := bind_eq_ok_iff.mp h
    obtain ⟨still, later⟩ := ih h
    obtain ⟨before, first'⟩ := addPath_asStrict first still
    exact ⟨before, bind_eq_ok_iff.mpr ⟨_, first', later⟩⟩

/-- The arguments behind one that was read, with the next one or without it. -/
theorem rest_asStrict {x y : Except Halt (Options × Bool)} {rest : List String}
    (first : ∀ mid took, x = .ok (mid, took) → mid.strict = false →
      o.strict = false ∧ y = .ok (mid.asStrict, took))
    (later : ∀ mid, ∀ arguments ∈ [rest.drop 1, rest], addArguments mid arguments = .ok o' →
      mid.strict = false ∧ addArguments mid.asStrict arguments = .ok o'.asStrict)
    (h : (do let (o, took) ← x; if took then addArguments o (rest.drop 1) else addArguments o rest) =
      .ok o') :
    o.strict = false ∧
      (do let (o, took) ← y; if took then addArguments o (rest.drop 1) else addArguments o rest) =
        .ok o'.asStrict := by
  obtain ⟨⟨mid, took⟩, done, h⟩ := bind_eq_ok_iff.mp h
  cases took with
  | true =>
    obtain ⟨still, later⟩ := later mid _ (by simp) h
    obtain ⟨before, done'⟩ := first mid true done still
    exact ⟨before, bind_eq_ok_iff.mpr ⟨_, done', later⟩⟩
  | false =>
    obtain ⟨still, later⟩ := later mid _ (by simp) h
    obtain ⟨before, done'⟩ := first mid false done still
    exact ⟨before, bind_eq_ok_iff.mpr ⟨_, done', later⟩⟩

/-- A reading that ends without strictness never met it, and goes the same way with it. -/
theorem addArguments_asStrict {arguments : List String} (h : addArguments o arguments = .ok o')
    (lax : o'.strict = false) :
    o.strict = false ∧ addArguments o.asStrict arguments = .ok o'.asStrict := by
  fun_induction addArguments o arguments with
  | case1 =>
    cases h
    exact ⟨lax, by rw [addArguments]⟩
  | case2 o rest =>
    rw [addArguments]
    exact foldlM_addPath_asStrict h lax
  | case3 o argument rest other long spelled ih₁ ih₂ =>
    rw [addArguments, spelled]
    · refine rest_asStrict (fun _ _ => addLong_asStrict) ?_ h
      intro mid
      exact List.forall_mem_cons.mpr ⟨ih₁ mid, List.forall_mem_singleton.mpr (ih₂ mid)⟩
    · exact other
  | case4 o argument rest other c letters single spelled ih₁ ih₂ =>
    rw [addArguments, spelled]
    · split
      next same => exact absurd (List.cons.inj (List.cons.inj same).2).1 single
      next same =>
        obtain ⟨rfl, rfl⟩ := List.cons.inj (List.cons.inj same).2
        refine rest_asStrict (fun _ _ => addLetters_asStrict) ?_ h
        intro mid
        exact List.forall_mem_cons.mpr ⟨ih₁ mid, List.forall_mem_singleton.mpr (ih₂ mid)⟩
      next noLetters => exact absurd rfl (noLetters c letters)
    · exact other
  | case5 o argument rest other noLong noLetters ih =>
    obtain ⟨mid, first, h⟩ := bind_eq_ok_iff.mp h
    obtain ⟨still, later⟩ := ih mid h
    obtain ⟨before, first'⟩ := addPath_asStrict first still
    refine ⟨before, ?_⟩
    rw [addArguments]
    · split
      next long => exact absurd long (noLong _)
      next letters => exact absurd letters (noLetters _ _)
      exact bind_eq_ok_iff.mpr ⟨_, first', later⟩
    · exact other

theorem ofArguments_strict {arguments : List String} (h : ofArguments arguments = .ok o)
    (lax : o.strict = false) : ofArguments ("--strict" :: arguments) = .ok o.asStrict := by
  have word : "--strict".toList = '-' :: '-' :: "strict".toList := by decide
  have flag : addLong arguments {} "strict".toList = .ok (asStrict {}, false) := by rfl
  rw [ofArguments, addArguments, word]
  · exact bind_eq_ok_iff.mpr ⟨_, flag, (addArguments_asStrict h lax).2⟩
  · decide

end Options
end Annodoc.CommandLine
