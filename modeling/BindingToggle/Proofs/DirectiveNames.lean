import BindingToggle.Proofs.Scanning
import BindingToggle.Proofs.Slices
import BindingToggle.Template.DirectiveName

/-!
# Names of directives, part by part

The name of a directive is taken apart without loss: its marker, its argument and what stands behind
that are all of its characters, and each part ends where its own rule says.

* `Marked` — how the name of a directive begins; `ofText?_eq_none_iff` says that every other name is
  taken as it stands.
* `ArgumentEnds` — where an argument ends, in brackets or not; `splitArgument_of_ends` says that it
  is cut off there.
* `Spelled` — a name is written with these parts; `ofText?_eq_some_iff` says that these are the
  parts that are found.
* `ofText?_decomposes` — which names are taken apart, into what, and at which offsets.
-/

namespace BindingToggle

open Text

namespace DirectiveName

/-! ## Names taken as they stand -/

/-- The name begins like that of a directive: with one of the short markers, or with `v-` and a
name. -/
def Marked (t : Text) : Prop :=
  (∃ c u, t = c :: u ∧ (c = ':' ∨ c = '.' ∨ c = '@' ∨ c = '#')) ∨
    ∃ c u, t = 'v' :: '-' :: c :: u ∧ isNamePart c = true

/-- **Exactly the marked names are names of directives.** -/
theorem ofText?_eq_none_iff (t : Text) : ofText? t = none ↔ ¬ Marked t := by
  constructor
  · rintro h (⟨c, u, rfl, rfl | rfl | rfl | rfl⟩ | ⟨c, u, rfl, hc⟩)
    · cases h
    · cases h
    · cases h
    · cases h
    · simp only [ofText?, List.takeWhile_cons, hc, if_true, List.isEmpty_cons, Bool.false_eq_true,
        if_false] at h
      split at h <;> cases h
  · intro h
    unfold ofText?
    split
    · rename_i t
      cases t with
      | nil => rfl
      | cons c u =>
        have hc : isNamePart c = false :=
          Bool.eq_false_iff.2 fun hc => h (.inr ⟨c, u, rfl, hc⟩)
        simp [hc]
    · exact absurd (.inl ⟨_, _, rfl, by simp⟩) h
    · exact absurd (.inl ⟨_, _, rfl, by simp⟩) h
    · exact absurd (.inl ⟨_, _, rfl, by simp⟩) h
    · exact absurd (.inl ⟨_, _, rfl, by simp⟩) h
    · rfl

/-! ## Arguments -/

/-- An argument ends in front of `tail`: at the first point or with the text, or, when it begins
with a bracket, behind the first closing bracket, and with the text if there is none. -/
inductive ArgumentEnds : Text → Text → Prop
  | plain {argument tail : Text} (hbracket : argument.head? ≠ some '[') (hpoint : '.' ∉ argument)
      (htail : tail = [] ∨ tail.head? = some '.') : ArgumentEnds argument tail
  | closed {inner tail : Text} (hinner : ']' ∉ inner) :
      ArgumentEnds ('[' :: (inner ++ [']'])) tail
  | unclosed {inner : Text} (hinner : ']' ∉ inner) : ArgumentEnds ('[' :: inner) []

theorem ne_of_notMem {mark : Char} {t : Text} (h : mark ∉ t) : ∀ c ∈ t, (c != mark) = true := by
  intro c hc
  rw [bne_iff_ne]
  exact ne_of_mem_of_not_mem hc h

/-- An argument is cut off where it ends. -/
theorem splitArgument_of_ends {argument tail : Text} (h : ArgumentEnds argument tail) :
    splitArgument (argument ++ tail) = (argument, tail) := by
  cases h with
  | plain hbracket hpoint htail =>
    have hstops : Stops (· != '.') tail := by
      rcases htail with rfl | htail
      · exact stops_nil _
      · obtain ⟨u, rfl⟩ := List.head?_eq_some_iff.1 htail
        exact stops_cons.2 rfl
    have hrun := ne_of_notMem hpoint
    unfold splitArgument
    split
    · -- a bracket would have to be that of the argument, or the point behind an empty one
      rename_i u hu
      cases argument with
      | nil =>
        rw [List.nil_append] at hu
        rw [hu] at htail
        simp at htail
      | cons c argument =>
        cases hu
        exact absurd rfl hbracket
    · rw [takeWhile_run hrun hstops, dropWhile_run hrun hstops]
  | closed hinner =>
    rename_i inner
    have hrun := ne_of_notMem hinner
    have hstops : Stops (· != ']') (']' :: tail) := stops_cons.2 rfl
    have htext : '[' :: (inner ++ [']']) ++ tail = '[' :: (inner ++ ']' :: tail) := by simp
    rw [htext, splitArgument, dropWhile_run hrun hstops, takeWhile_run hrun hstops]
    rfl
  | unclosed hinner =>
    rename_i inner
    have hdrop := dropWhile_run (ne_of_notMem hinner) (stops_nil _)
    rw [List.append_nil] at hdrop
    rw [List.append_nil, splitArgument, hdrop]

/-- Every text begins with an argument, which may be empty. -/
theorem exists_ends (t : Text) :
    ∃ argument tail, t = argument ++ tail ∧ ArgumentEnds argument tail := by
  by_cases hbracket : t.head? = some '['
  · obtain ⟨u, rfl⟩ := List.head?_eq_some_iff.1 hbracket
    rcases exists_mark ']' u with hnone | ⟨inner, tail, rfl, hinner⟩
    · exact ⟨'[' :: u, [], by simp, .unclosed hnone⟩
    · exact ⟨'[' :: (inner ++ [']']), tail, by simp, .closed hinner⟩
  · rcases exists_mark '.' t with hnone | ⟨argument, tail, rfl, hpoint⟩
    · exact ⟨t, [], by simp, .plain hbracket hnone (.inl rfl)⟩
    · refine ⟨argument, '.' :: tail, rfl, .plain ?_ hpoint (.inr rfl)⟩
      intro hhead
      rw [List.head?_append, hhead] at hbracket
      exact hbracket rfl

/-! ## Modifiers -/

/-- The modifiers behind an argument: the pieces between points, but for the empty ones, and the one
that the marker `.` stands for, if it is not among them. -/
def modifiersBehind (marker : Marker) (tail : Text) : List Text :=
  let written := (List.splitOn '.' tail).filter (!·.isEmpty)
  if marker = .dot ∧ !written.contains propModifier then written ++ [propModifier] else written

theorem modifiersBehind_eq (marker : Marker) (tail : Text) :
    modifiersBehind marker tail =
      if marker = .dot ∧ propModifier ∉ modifiersOf tail then modifiersOf tail ++ [propModifier]
      else modifiersOf tail := by
  rw [modifiersBehind, modifiersOf]
  simp only [Bool.not_eq_true', List.contains_eq_mem, decide_eq_false_iff_not]

/-! ## Whole names -/

/-- The characters in front of the argument, for a directive with the given name and marker. -/
inductive Leads : Text → Marker → Text → Prop
  | binding : Leads "bind".toList .colon [':']
  | property : Leads "bind".toList .dot ['.']
  | listener : Leads "on".toList .at ['@']
  | slot : Leads "slot".toList .hash ['#']
  | long {name : Text} (hne : name ≠ []) (hcolon : ':' ∉ name) (hpoint : '.' ∉ name) :
      Leads name .long ('v' :: '-' :: (name ++ [':']))
  | bare {name : Text} (hne : name ≠ []) (hcolon : ':' ∉ name) (hpoint : '.' ∉ name) :
      Leads name .long ('v' :: '-' :: name)

theorem Leads.ne_nil {name lead : Text} {marker : Marker} (h : Leads name marker lead) :
    lead ≠ [] := by
  cases h <;> simp

/-- The name is written with the parts given, and with `tail` behind the argument. -/
structure Spelled (raw : Text) (parts : DirectiveName) (tail : Text) : Prop where
  whole : raw = parts.lead ++ (parts.argument.getD [] ++ tail)
  lead : Leads parts.name parts.marker parts.lead
  argument : ArgumentEnds (parts.argument.getD []) tail
  /-- An argument that is there is not empty. -/
  nonempty : parts.argument ≠ some []
  /-- Without a colon, a name takes no argument. -/
  bare : parts.lead = 'v' :: '-' :: parts.name → parts.argument = none
  modifiers : parts.modifiers = modifiersBehind parts.marker tail

theorem withArgument_eq {name lead tail : Text} {marker : Marker} {argument : Option Text}
    (h : ArgumentEnds (argument.getD []) tail) (hne : argument ≠ some []) :
    withArgument name marker lead (argument.getD [] ++ tail) =
      ⟨name, marker, lead, argument, modifiersBehind marker tail⟩ := by
  have hargument : (if (argument.getD []).isEmpty then none else some (argument.getD [])) =
      argument := by
    cases argument with
    | none => rfl
    | some content =>
      cases content with
      | nil => exact absurd rfl hne
      | cons c content => rfl
  rw [withArgument, splitArgument_of_ends h, modifiersBehind_eq]
  simp only [hargument]

theorem isNamePart_of_notMem {name : Text} (hcolon : ':' ∉ name) (hpoint : '.' ∉ name) :
    ∀ c ∈ name, isNamePart c = true := by
  intro c hc
  simp only [isNamePart, Bool.and_eq_true, bne_iff_ne]
  exact ⟨ne_of_mem_of_not_mem hc hcolon, ne_of_mem_of_not_mem hc hpoint⟩

/-- A name is taken apart into the parts that it is written with. -/
theorem ofText?_of_spelled {raw tail : Text} {parts : DirectiveName} (h : Spelled raw parts tail) :
    ofText? raw = some parts := by
  obtain ⟨rfl, hlead, hargument, hne, hbare, hmodifiers⟩ := h
  obtain ⟨name, marker, lead, argument, modifiers⟩ := parts
  simp only at *
  subst hmodifiers
  cases hlead with
  | binding => exact congrArg some (withArgument_eq hargument hne)
  | property => exact congrArg some (withArgument_eq hargument hne)
  | listener => exact congrArg some (withArgument_eq hargument hne)
  | slot => exact congrArg some (withArgument_eq hargument hne)
  | long hname hcolon hpoint =>
    have hrun := isNamePart_of_notMem hcolon hpoint
    have hstops : Stops isNamePart (':' :: (argument.getD [] ++ tail)) := stops_cons.2 rfl
    have hraw : 'v' :: '-' :: (name ++ [':']) ++ (argument.getD [] ++ tail) =
        'v' :: '-' :: (name ++ ':' :: (argument.getD [] ++ tail)) := by simp
    rw [hraw, ofText?]
    simp only [takeWhile_run hrun hstops, dropWhile_run hrun hstops, List.isEmpty_iff, hname,
      if_false]
    exact congrArg some (withArgument_eq hargument hne)
  | bare hname hcolon hpoint =>
    obtain rfl := hbare rfl
    have hrun := isNamePart_of_notMem hcolon hpoint
    have hend : tail = [] ∨ ∃ u, tail = '.' :: u := by
      cases hargument with
      | plain _ _ htail => exact htail.imp_right List.head?_eq_some_iff.1
    have hstops : Stops isNamePart tail := by
      rcases hend with rfl | ⟨u, rfl⟩
      · exact stops_nil _
      · exact stops_cons.2 rfl
    show ofText? ('v' :: '-' :: (name ++ tail)) = _
    rw [ofText?, modifiersBehind_eq]
    simp only [takeWhile_run hrun hstops, dropWhile_run hrun hstops, List.isEmpty_iff, hname,
      if_false, reduceCtorEq, false_and]
    rcases hend with rfl | ⟨u, rfl⟩
    · rfl
    · rfl

theorem spelled_withArgument {name lead : Text} {marker : Marker} (hlead : Leads name marker lead)
    (hbare : lead ≠ 'v' :: '-' :: name) (t : Text) :
    ∃ tail, Spelled (lead ++ t) (withArgument name marker lead t) tail := by
  obtain ⟨argument, tail, rfl, hends⟩ := exists_ends t
  have hargument : ∃ a : Option Text, a.getD [] = argument ∧ a ≠ some [] := by
    cases argument with
    | nil => exact ⟨none, rfl, by simp⟩
    | cons c argument => exact ⟨some (c :: argument), rfl, by simp⟩
  obtain ⟨a, rfl, hne⟩ := hargument
  rw [withArgument_eq hends hne]
  exact ⟨tail, rfl, hlead, hends, hne, fun h => absurd h hbare, rfl⟩

/-- The parts into which a name is taken apart are those that it is written with. -/
theorem exists_spelled {raw : Text} {parts : DirectiveName} (h : ofText? raw = some parts) :
    ∃ tail, Spelled raw parts tail := by
  unfold ofText? at h
  split at h
  · rename_i t
    obtain ⟨name, rest, rfl, hrun, hstops⟩ := exists_run isNamePart t
    simp only [takeWhile_run hrun hstops, dropWhile_run hrun hstops, List.isEmpty_iff] at h
    have hcolon : ':' ∉ name := fun hmem => absurd (hrun _ hmem) (by decide)
    have hpoint : '.' ∉ name := fun hmem => absurd (hrun _ hmem) (by decide)
    split at h
    · cases h
    · rename_i hname
      split at h
      · rename_i tail
        cases h
        have hspelled := spelled_withArgument (.long hname hcolon hpoint) (by simp) tail
        simpa using hspelled
      · rename_i hrest
        cases h
        have htail : rest = [] ∨ rest.head? = some '.' := by
          cases rest with
          | nil => exact .inl rfl
          | cons c rest =>
            have hc := stops_cons.1 hstops
            have hne : c ≠ ':' := by
              rintro rfl
              exact hrest rest rfl
            exact .inr (by simpa [isNamePart, hne] using hc)
        refine ⟨rest, by simp, .bare hname hcolon hpoint, .plain (by simp) (by simp) htail, by simp,
          fun _ => rfl, ?_⟩
        rw [modifiersBehind_eq]
        simp
  · cases h
    exact spelled_withArgument .binding (by simp) _
  · cases h
    exact spelled_withArgument .property (by simp) _
  · cases h
    exact spelled_withArgument .listener (by simp) _
  · cases h
    exact spelled_withArgument .slot (by simp) _
  · cases h

/-- **A name is taken apart into the parts that it is written with**, and there is only one way to
write it. -/
theorem ofText?_eq_some_iff {raw : Text} {parts : DirectiveName} :
    ofText? raw = some parts ↔ ∃ tail, Spelled raw parts tail :=
  ⟨exists_spelled, fun ⟨_, h⟩ => ofText?_of_spelled h⟩

/-- **Names are taken apart without loss.** Exactly the marked names have parts, and these are the
ones that the name is written with. The marker stands at the beginning of the name, and the argument
at the offset where the marker ends. -/
theorem ofText?_decomposes (raw : Text) :
    ((ofText? raw).isSome = true ↔ Marked raw) ∧
    (∀ parts, ofText? raw = some parts ↔ ∃ tail, Spelled raw parts tail) ∧
    ∀ parts, ofText? raw = some parts →
      slice? raw 0 (width parts.lead) = some parts.lead ∧
      ∀ argument, parts.argument = some argument →
        slice? raw (width parts.lead) (width parts.lead + width argument) = some argument := by
  refine ⟨?_, fun parts => ofText?_eq_some_iff, ?_⟩
  · rw [Option.isSome_iff_ne_none, ne_eq, ofText?_eq_none_iff, Classical.not_not]
  · intro parts h
    obtain ⟨tail, hspelled⟩ := exists_spelled h
    have hwhole := hspelled.whole
    constructor
    · exact slice?_eq_some (x := []) hwhole rfl (by simp)
    · intro argument hargument
      rw [hargument] at hwhole
      exact slice?_eq_some hwhole rfl rfl

/-- An argument in brackets with a point in it, and modifiers behind it with an empty one between
them. -/
theorem ofText?_decomposes_brackets :
    let raw : Text := "v-on:[é.b]c..once".toList
    let parts : DirectiveName :=
      ⟨"on".toList, .long, "v-on:".toList, some "[é.b]".toList, ["c".toList, "once".toList]⟩
    (∃ tail, Spelled raw parts tail) ∧ slice? raw 5 11 = some "[é.b]".toList := by
  intro raw parts
  obtain ⟨-, hparts, hplaces⟩ := ofText?_decomposes raw
  have h : ofText? raw = some parts := by decide +kernel
  exact ⟨(hparts parts).1 h, (hplaces parts h).2 _ rfl⟩

end DirectiveName

end BindingToggle
