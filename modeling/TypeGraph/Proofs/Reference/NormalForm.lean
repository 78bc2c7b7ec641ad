import TypeGraph.Proofs.Reference.Grammar

/-! Rendering as a normal form. Texts that are read as one reference differ in blanks and in the
marks of items, and the reference is rendered without either. -/

namespace TypeGraph.Reference

variable {text text' : String} {s : List Char} {r r' : Reference}

theorem Spelling.isName (h : Spelling s r) : IsName r.target.toList := by
  cases h with
  | plain _ hn => rwa [String.toList_ofList]
  | required name _ hn => rwa [String.toList_ofList]
  | list _ name _ _ _ _ _ hn => rwa [String.toList_ofList]

theorem isName_of_parse (h : parse text = .ok r) : IsName r.target.toList := by
  obtain ⟨s, -, hs⟩ := parse_eq_ok_iff_spelling.mp h
  exact hs.isName

theorem parse_render_of_parse (h : parse text = .ok r) : parse r.render = .ok r :=
  parse_render (isName_of_parse h)

/-- A reference is read back as it was rendered if and only if it is to a name. So it is when it
was read from a text, and then its rendering tells it from all others. -/
theorem render_normal_form :
    (∀ r : Reference, parse r.render = .ok r ↔ IsName r.target.toList) ∧
    (∀ text r, parse text = .ok r → parse r.render = .ok r) ∧
    ∀ text text' r r', parse text = .ok r → parse text' = .ok r' →
      (r.render = r'.render ↔ r = r') := by
  refine ⟨fun r => ⟨isName_of_parse, parse_render⟩, fun _ _ h => parse_render_of_parse h, ?_⟩
  intro text text' r r' h h'
  refine ⟨eq_of_render_eq (isName_of_parse h) (isName_of_parse h'), ?_⟩
  rintro rfl
  rfl

theorem render_normal_form_post :
    parse "\t[ Post !]\u3000" = .ok ⟨"Post", true, false⟩ ∧
    parse "Post\u00A0!" = .ok ⟨"Post", false, true⟩ ∧
    parse "[Post]" = .ok ⟨"Post", true, false⟩ ∧
    ("[Post]" = "Post!" ↔ (⟨"Post", true, false⟩ : Reference) = ⟨"Post", false, true⟩) := by
  obtain ⟨-, hagain, htell⟩ := render_normal_form
  have hlist : parse "\t[ Post !]\u3000" = .ok ⟨"Post", true, false⟩ := by decide
  have hmarked : parse "Post\u00A0!" = .ok ⟨"Post", false, true⟩ := by decide
  exact ⟨hlist, hmarked, hagain _ _ hlist, htell _ _ _ _ hlist hmarked⟩

/-- A target that is no name can be rendered like another reference. -/
example : parse (render ⟨"[Post]", false, false⟩) = .ok ⟨"Post", true, false⟩ := by decide

end TypeGraph.Reference
