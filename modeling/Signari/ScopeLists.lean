import Signari.GoStrings

/-!
# Scope strings

The two readers of a scope string. `splitScope` of the oauth package reads a request parameter and
splits at any Unicode space; `splitScopes` of the handlers reads a token's claim and splits at
space, tab and newline only.
-/
namespace Signari.ScopeLists
open GoStrings

def scopeSeparator (c : Char) : Bool := c == ' ' || c == '\t' || c == '\n'

/-- The handlers' reader of a token's scope claim. -/
def splitScopes (s : String) : List String := fieldsBy scopeSeparator s

def joinScopes (s : List String) : String := join s (String.ofList [' '])

/-- The oauth package's reader of a scope parameter. -/
def splitScope (s : String) : List String := if trimSpace s = "" then [] else fields s

/-- A list of scope values as `splitScopes` can return it. -/
def ScopeWords (ws : List String) : Prop :=
  ∀ w ∈ ws, w.toList ≠ [] ∧ ∀ c ∈ w.toList, scopeSeparator c = false

theorem splitScopes_words (s : String) : ScopeWords (splitScopes s) := fun _ hw => fieldsBy_mem hw

theorem ScopeWords.of_subset {ws vs : List String} (h : ScopeWords ws) (hsub : vs ⊆ ws) :
    ScopeWords vs :=
  fun v hv => h v (hsub hv)

theorem splitScopes_joinScopes {ws : List String} (h : ScopeWords ws) :
    splitScopes (joinScopes ws) = ws :=
  fieldsBy_join (by decide) ws h

end Signari.ScopeLists
