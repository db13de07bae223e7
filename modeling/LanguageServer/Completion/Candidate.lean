import LanguageServer.Completion.Context
import LanguageServer.Text
/-!
Completion candidates: what is offered at a place, and what a client learns when it asks about one.
-/

namespace LanguageServer

structure Candidate where
  label : String
  category : Category
  detail : String
  documentation : Option String
  /-- The text that takes the place of the typed word. -/
  insertText : String
  /-- Whether `insertText` is a snippet. -/
  isSnippet : Bool
  deriving DecidableEq, Repr

namespace Candidate

/-- The name that a new declaration has until it gets one. -/
def placeholder (keyword : String) : String := if keyword = "app" then "ProjectName" else "Name"

/-- The candidate for a keyword. A declaration comes with a quoted name to fill in. -/
def ofKeyword (snippets : Bool) (category : Category) (keyword : String) : Candidate :=
  let name := placeholder keyword
  let insertText :=
    if category ≠ .declarations then keyword
    else if snippets then keyword ++ " \"$\x7b1:" ++ name ++ "\x7d\":"
    else keyword ++ " \"" ++ name ++ "\":"
  { label := keyword
    category := category
    detail := category.detail
    documentation := none
    insertText := insertText
    isSnippet := snippets && category = .declarations }

/-- The candidates of some contexts: context after context, category after category, and each
category in catalog order. -/
def ofContexts (snippets : Bool) (contexts : List Context) : List Candidate :=
  contexts.flatMap fun context =>
    context.categories.flatMap fun category =>
      category.keywords.map (ofKeyword snippets category)

/-- The candidates at a position of a text, if it is a position of the text. -/
def atPosition? (classify : Classifier) (snippets : Bool) (text : Text) (position : Position) :
    Option (List Candidate) :=
  (text.before? position).map fun before => ofContexts snippets (classify before)

/-- Adds the documentation of a candidate's keyword. A candidate whose label is no keyword of its
category stays as it is. -/
def resolve (candidate : Candidate) : Candidate :=
  if Category.ofKeyword? candidate.label = some candidate.category then
    { candidate with
      detail := candidate.category.detail ++ " keyword"
      documentation := Keyword.documentation? candidate.label }
  else candidate

end Candidate

end LanguageServer
