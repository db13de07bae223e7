/-!
The keyword catalog of the language: six disjoint categories, each a list of documented keywords
whose order is the order in which completion offers them.
-/

namespace LanguageServer

/-- What a keyword is for. -/
inductive Category
  | declarations
  | types
  | modifiers
  | actions
  | control
  | properties
  deriving DecidableEq, Repr, Inhabited

/-- A keyword and the text that explains it. -/
structure Keyword where
  name : String
  documentation : String
  deriving DecidableEq, Repr

namespace Category

/-- The categories in catalog order. -/
def all : List Category := [declarations, types, modifiers, actions, control, properties]

def name : Category → String
  | declarations => "declarations"
  | types => "types"
  | modifiers => "modifiers"
  | actions => "actions"
  | control => "control"
  | properties => "properties"

def ofName? (name : String) : Option Category := all.find? fun category => category.name = name

/-- A noun for one keyword of the category. -/
def detail : Category → String
  | declarations => "declaration"
  | types => "type"
  | modifiers => "modifier"
  | actions => "action"
  | control => "control flow"
  | properties => "property"

/-- The documented keywords of a category, in catalog order. -/
def entries : Category → List Keyword
  | declarations => [
    ⟨"app", "Declares the application root. Exactly one `app` block names the project."⟩,
    ⟨"page", "Declares a page reachable by the application's router."⟩,
    ⟨"model", "Declares a persisted data model and its fields."⟩,
    ⟨"component", "Declares a reusable UI component."⟩,
    ⟨"service", "Declares a backend service exposing operations."⟩,
    ⟨"workflow", "Declares a multi-step workflow composed of actions."⟩,
    ⟨"route", "Declares a route binding a path to a page."⟩,
    ⟨"job", "Declares a background job, optionally on a schedule."⟩]
  | types => [
    ⟨"String", "UTF-8 text value."⟩,
    ⟨"Int", "Signed integer value."⟩,
    ⟨"Float", "Floating point value."⟩,
    ⟨"Boolean", "`true` or `false`."⟩,
    ⟨"Date", "Calendar date without a time component."⟩,
    ⟨"DateTime", "Date and time with timezone."⟩,
    ⟨"Json", "Arbitrary structured JSON value."⟩,
    ⟨"Uuid", "Universally unique identifier."⟩,
    ⟨"Email", "Text value validated as an email address."⟩,
    ⟨"Url", "Text value validated as a URL."⟩]
  | modifiers => [
    ⟨"required", "The field must be present."⟩,
    ⟨"optional", "The field may be omitted."⟩,
    ⟨"unique", "No two records may share this value."⟩,
    ⟨"primary", "The field is the model's primary key."⟩,
    ⟨"indexed", "The field is indexed for lookups."⟩,
    ⟨"default", "Supplies a default value when none is given."⟩,
    ⟨"readonly", "The value cannot be changed after creation."⟩,
    ⟨"private", "The member is not exposed outside its declaration."⟩]
  | actions => [
    ⟨"create", "Creates a new record."⟩,
    ⟨"update", "Updates an existing record."⟩,
    ⟨"delete", "Deletes a record."⟩,
    ⟨"fetch", "Loads records or remote data."⟩,
    ⟨"navigate", "Navigates to another page."⟩,
    ⟨"submit", "Submits the current form."⟩,
    ⟨"validate", "Validates input against the model's rules."⟩,
    ⟨"notify", "Sends a notification to the user."⟩]
  | control => [
    ⟨"if", "Conditional branch."⟩,
    ⟨"else", "Alternative branch of an `if`."⟩,
    ⟨"for", "Iterates over a collection."⟩,
    ⟨"each", "Binds the current element inside a `for` loop."⟩,
    ⟨"when", "Guards a block on a condition or event."⟩,
    ⟨"match", "Selects a branch by value."⟩,
    ⟨"return", "Returns a value from the enclosing block."⟩]
  | properties => [
    ⟨"title", "Human-readable title."⟩,
    ⟨"description", "Longer description text."⟩,
    ⟨"path", "URL path of a page or route."⟩,
    ⟨"layout", "Layout used to render a page."⟩,
    ⟨"fields", "Field list of a model or form."⟩,
    ⟨"auth", "Authentication requirement."⟩,
    ⟨"theme", "Visual theme of the application."⟩,
    ⟨"version", "Version string of the application or service."⟩,
    ⟨"icon", "Icon shown for the element."⟩,
    ⟨"entity", "Model the element operates on."⟩,
    ⟨"schedule", "Cron-style schedule of a job."⟩]

def keywords (category : Category) : List String := category.entries.map Keyword.name

/-- The category that lists a word. Case matters. -/
def ofKeyword? (word : String) : Option Category :=
  all.find? fun category => word ∈ category.keywords

end Category

/-- The explanation of a word, if it is a keyword. -/
def Keyword.documentation? (word : String) : Option String :=
  ((Category.all.flatMap Category.entries).find? fun entry => entry.name = word).map
    Keyword.documentation

/-- Whether a word opens a declaration header. -/
def Keyword.isDeclaration (word : String) : Bool := word ∈ Category.declarations.keywords

/-- The identifier by which clients name the language. -/
def languageId : String := "blueprint"

/-- The characters after which a client asks for completion by itself. -/
def triggerCharacters : List String := [":"]

end LanguageServer
