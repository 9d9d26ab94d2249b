import Bindery.Proofs.AliasTargets
import Bindery.Proofs.Reference

/-!
# Mentions in other places

A type is spelled differently in different places of a module, but what it imports is decided by
the module alone: it is the union of what the names in it need there. From module to module the
imports differ in the paths that lead to their targets. The alias, the accesses behind it and the
absolute import that the alias table records are the same everywhere, since the target and its
owner are found without looking at the place of the mention.
-/

namespace Bindery

open Api Dotted

namespace Catalog

variable {c : Catalog} {scope scope' : Scope}

theorem Unites.eq_of_module {names : List String} {imports imports' : Imports}
    (hmodule : scope.module = scope'.module) (h : Unites c scope names imports)
    (h' : Unites c scope' names imports') : imports = imports' := by
  obtain ⟨references, hreferences, rfl⟩ := h
  obtain ⟨references', hreferences', rfl⟩ := h'
  have hneeded : references.map Reference.needed? = references'.map Reference.needed? := by
    induction names generalizing references references' with
    | nil =>
      obtain rfl := Outcome.pure_eq_ok.mp hreferences
      obtain rfl := Outcome.pure_eq_ok.mp hreferences'
      rfl
    | cons fqn names ih =>
      simp only [List.mapM_cons, Outcome.bind_eq_ok, Outcome.pure_eq_ok] at hreferences hreferences'
      obtain ⟨r, hr, rest, hrest, rfl⟩ := hreferences
      obtain ⟨r', hr', rest', hrest', rfl⟩ := hreferences'
      rw [List.map_cons, List.map_cons, needed?_eq_of_module hmodule hr hr', ih rest hrest rest' hrest']
  have hfilter : ∀ list : List Reference,
      list.filterMap Reference.needed? = (list.map Reference.needed?).filterMap id := by
    intro list
    rw [List.filterMap_map]
    rfl
  rw [hfilter, hfilter, hneeded]

/-- Wherever a module mentions a type, it needs the same imports: those of the names in the
type. -/
theorem imports_same_in_module {type : TypeExpr} {p p' : Projection}
    (hmodule : scope.module = scope'.module) (h : c.project scope type = .ok p)
    (h' : c.project scope' type = .ok p') :
    p.imports = p'.imports ∧
      ∃ references, type.mentions.mapM (c.resolve scope) = .ok references ∧
        p.imports = .ofList (references.filterMap Reference.needed?) := by
  have hunites := unites_of_project scope type p h
  exact ⟨hunites.eq_of_module hmodule (unites_of_project scope' type p' h'), hunites⟩

theorem imports_same_in_module_part :
    let c := Model.engineModel.toCatalog
    let type : TypeExpr :=
      .optional (.union [.array (.named "Acme.core.Engine.Part"), .primitive .any])
    let mention : Scope := { module := "Acme" }
    let value : Scope := { module := "Acme", emitted := ["Acme.core.Engine.Part"],
                           annotation := false, parameter := true, optionalShown := true }
    ∃ p p', c.project mention type = .ok p ∧ c.project value type = .ok p' ∧
      p.display =
        "typing.Optional[typing.Union[typing.List[_Engine_bde0cbf0.Part], typing.Any]]" ∧
      p'.display = "typing.Union[typing.Sequence[_Engine_bde0cbf0.Part], typing.Any]" ∧
      p.imports = p'.imports := by
  intro c type mention value
  have hmention : (c.project mention type).toOption.map Projection.display =
      some "typing.Optional[typing.Union[typing.List[_Engine_bde0cbf0.Part], typing.Any]]" := by
    decide +kernel
  have hvalue : (c.project value type).toOption.map Projection.display =
      some "typing.Union[typing.Sequence[_Engine_bde0cbf0.Part], typing.Any]" := by
    decide +kernel
  obtain ⟨p, hp, hdisplay⟩ := Outcome.exists_eq_ok_of_map hmention
  obtain ⟨p', hp', hdisplay'⟩ := Outcome.exists_eq_ok_of_map hvalue
  have hmodule : mention.module = value.module := rfl
  exact ⟨p, p', hp, hp', hdisplay, hdisplay', (imports_same_in_module hmodule hp hp').1⟩

end Catalog

namespace Package

end Package

namespace Catalog

variable {c : Catalog} {fqn : String}

end Catalog

namespace Model

variable {m : Model}

end Model

end Bindery
