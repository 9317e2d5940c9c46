import SpectralAlgebra.Parameter
import SpectralAlgebra.Proofs.Replacement

/-!
# Templates

A template names the quantity derived from a parameter. Its placeholders are counted first, then
what is left of it without them is searched for braces. Taking one placeholder out can put another
one together, but that one has its braces. So a template is accepted just if it is the placeholder
between two texts without braces (`Derived.make_eq_ok_iff`), and a name is then written between
these two, whatever is in the name: derived names tell names apart
(`Derived.template_accepted_iff`).
-/

namespace SpectralAlgebra.Derived

/-- The template is the placeholder between two texts without braces. -/
structure Framed (template before after : String) : Prop where
  eq : template = before ++ placeholder ++ after
  no_opening : '\x7b' ∉ before.toList ++ after.toList
  no_closing : '\x7d' ∉ before.toList ++ after.toList

variable {template before after : String}

/-- An occurrence begins with a brace, so there is none but the one between the texts. -/
theorem Framed.pieces (h : Framed template before after) :
    Text.pieces placeholder.toList template.toList = [before.toList, after.toList] := by
  have hbrace := h.no_opening
  rw [List.mem_append, not_or] at hbrace
  rw [h.eq, String.toList_append, String.toList_append]
  exact Text.pieces_between hbrace.1 hbrace.2

theorem Framed.toList_replaceAll (h : Framed template before after) (r : String) :
    (Text.replaceAll placeholder r template).toList
      = before.toList ++ r.toList ++ after.toList :=
  (Text.toList_replaceAll ..).trans (Text.replaced_of_pieces h.pieces r.toList)

theorem any_brace_eq_false {cs : List Char} :
    (cs.any fun c => c = '\x7b' || c = '\x7d') = false ↔ '\x7b' ∉ cs ∧ '\x7d' ∉ cs := by
  rw [List.any_eq_false]
  simp only [Bool.or_eq_true, decide_eq_true_eq, not_or]
  exact ⟨fun h => ⟨fun hc => (h _ hc).1 rfl, fun hc => (h _ hc).2 rfl⟩,
    fun h c hc => ⟨ne_of_mem_of_not_mem hc h.1, ne_of_mem_of_not_mem hc h.2⟩⟩

theorem exists_framed_iff : (∃ before after, Framed template before after) ↔
    Text.occurrences placeholder template = 1 ∧
      ((Text.replaceAll placeholder "" template).toList.any fun c => c = '\x7b' || c = '\x7d')
        = false := by
  constructor
  · rintro ⟨before, after, h⟩
    refine ⟨by rw [Text.occurrences, h.pieces]; rfl, ?_⟩
    rw [h.toList_replaceAll, any_brace_eq_false, String.toList_empty, List.append_nil]
    exact ⟨h.no_opening, h.no_closing⟩
  · rintro ⟨hone, hrest⟩
    obtain ⟨before, after, ht, hr⟩ := Text.exists_replaced_of_occurrences (by decide) hone
    rw [hr, any_brace_eq_false] at hrest
    refine ⟨.ofList before, .ofList after, ?_, ?_, ?_⟩
    · rw [← String.toList_inj, ht]
      simp
    · simpa using hrest.1
    · simpa using hrest.2

/-- The placeholder that taking one out leaves has braces of its own. -/
example : ¬ ∃ before after, Framed "\x7b\x7bname\x7dname\x7d" before after := by
  rw [exists_framed_iff]
  decide +kernel

theorem make_eq_ok_iff {arity : Nat} {combine : Combinator} {d : Derived} :
    make template arity combine = .ok d ↔
      (arity = 1 ∧ ∃ before after, Framed template before after) ∧ d = ⟨template, combine⟩ := by
  rw [exists_framed_iff, make]
  split_ifs with harity hone hrest
  · simp [harity]
  · simp [hone]
  · simp [hrest]
  · simp [Decidable.of_not_not harity, Decidable.of_not_not hone, Bool.eq_false_iff.2 hrest,
      eq_comm]

/-- A template with an arity is accepted exactly if the arity is one and the template is the
placeholder between two texts without braces. The name of the derived quantity is the parameter's
name between these two texts, also if it has braces or placeholders itself, and parameters of
different names have derived quantities of different names. -/
theorem template_accepted_iff (template : String) (arity : Nat) (combine : Combinator) :
    ((∃ d, make template arity combine = .ok d) ↔
      arity = 1 ∧ ∃ before after, Framed template before after) ∧
    ∀ d, make template arity combine = .ok d →
      (∀ before after, Framed template before after →
        ∀ name, d.siteName name = before ++ name ++ after) ∧
      Function.Injective d.siteName := by
  refine ⟨⟨fun ⟨d, h⟩ => (make_eq_ok_iff.1 h).1, fun h => ⟨_, make_eq_ok_iff.2 ⟨h, rfl⟩⟩⟩, ?_⟩
  intro d h
  obtain ⟨⟨-, before, after, hframed⟩, rfl⟩ := make_eq_ok_iff.1 h
  have hname {before after : String} (hf : Framed template before after) (name : String) :
      siteName ⟨template, combine⟩ name = before ++ name ++ after := by
    rw [← String.toList_inj, siteName, hf.toList_replaceAll]
    simp
  refine ⟨fun _ _ hf => hname hf, fun name name' heq => ?_⟩
  rw [hname hframed, hname hframed, ← String.toList_inj] at heq
  simpa [String.toList_inj] using heq

/-- A parameter may have the placeholder for its name. -/
theorem template_accepted_iff_log :
    ∃ d, make "log(\x7bname\x7d)" 1 (fun xs => xs.headD 0) = .ok d ∧
      d.siteName "\x7bname\x7d" = "log(\x7bname\x7d)" ∧ Function.Injective d.siteName := by
  have hframed : Framed "log(\x7bname\x7d)" "log(" ")" := ⟨by decide, by decide, by decide⟩
  obtain ⟨hiff, hname⟩ := template_accepted_iff "log(\x7bname\x7d)" 1 fun xs => xs.headD 0
  obtain ⟨d, hd⟩ := hiff.2 ⟨rfl, "log(", ")", hframed⟩
  exact ⟨d, hd, ((hname d hd).1 _ _ hframed _).trans (by decide), (hname d hd).2⟩

end SpectralAlgebra.Derived
