import Hierarchy.Text.LowerCase
import Hierarchy.Text.WordTable

/-!
# Paths as the system writes them

Joining the parts of a path, and filling in the home directory and variables.  A path with a
variable that has no value stays as it is, in all its parts.
-/

namespace Hierarchy.NativePath

/-! ## Joining -/

/-- Appends a part; an absolute part starts anew. -/
def push (path part : String) : String :=
  if part.startsWith "/" then part
  else if path.isEmpty || path.endsWith "/" then path ++ part
  else path ++ "/" ++ part

def join (parts : List String) : String := parts.foldl push ""

/-! ## Variables -/

/-- The characters of a variable's name: letters, digits and the underscore. -/
def isNameChar (c : Char) : Bool :=
  c.isAlphanum || c == '_' || (0x80 ≤ c.toNat && Text.inRanges Text.wordRanges c)

/-- What stands before the first `:-`, and what stands behind it. -/
def splitAtDefault : List Char → List Char × Option (List Char)
  | [] => ([], none)
  | ':' :: '-' :: value => ([], some value)
  | c :: rest => let (name, value) := splitAtDefault rest; (c :: name, value)

/-- The name of a variable and its default; a default without a name is none. -/
def splitDefault (inside : List Char) : List Char × Option (List Char) :=
  let (name, value) := splitAtDefault inside
  if name.isEmpty then (inside, none) else (name, value)

/-- A variable with its value or the default beside its name. -/
def braced (lookup : String → Option String) (inside : List Char) : Option (List Char) :=
  let (name, default) := splitDefault inside
  match lookup (String.ofList name) with
  | some value => some value.toList
  | none => default

/-- Fills in variables: `$name`, or in braces, where a default may follow the name.  Two dollar
signs stand for one.  Values are not looked through again. -/
def fillVariables (lookup : String → Option String) : List Char → Option (List Char)
  | [] => some []
  | '$' :: '\x7b' :: rest =>
    if rest.contains '\x7d' then do
      let value ← braced lookup (rest.takeWhile (· != '\x7d'))
      let after ← fillVariables lookup (rest.dropWhile (· != '\x7d')).tail
      return value ++ after
    else (fillVariables lookup rest).map fun after => '$' :: '\x7b' :: after
  | '$' :: '$' :: rest => (fillVariables lookup rest).map ('$' :: ·)
  | '$' :: c :: rest =>
    if isNameChar c then do
      let value ← lookup (String.ofList (c :: rest.takeWhile isNameChar))
      let after ← fillVariables lookup (rest.dropWhile isNameChar)
      return value.toList ++ after
    else (fillVariables lookup (c :: rest)).map ('$' :: ·)
  | c :: rest => (fillVariables lookup rest).map (c :: ·)
termination_by cs => cs.length
decreasing_by
  · have := (List.dropWhile_suffix (l := rest) (· != '\x7d')).length_le
    simp only [List.length_cons, List.length_tail]
    omega
  · simp only [List.length_cons]; omega
  · simp only [List.length_cons]; omega
  · have := (List.dropWhile_suffix (l := rest) isNameChar).length_le
    simp only [List.length_cons]
    omega
  · simp only [List.length_cons]; omega
  · simp only [List.length_cons]; omega

/-- Puts the home directory in place of a tilde that stands alone or before a slash. -/
def fillHome (home : Option String) (path : String) : String :=
  match home, path.toList with
  | some home, ['~'] => home
  | some home, '~' :: '/' :: rest => home ++ String.ofList ('/' :: rest)
  | _, _ => path

/-- Fills in variables and the home directory; a tilde that comes from a variable stays. -/
def expand (lookup : String → Option String) (path : String) : String :=
  match fillVariables lookup path.toList with
  | none => path
  | some filled =>
    let filled := String.ofList filled
    if filled.startsWith "~" && !path.startsWith "~" then filled
    else fillHome (lookup "HOME") filled

end Hierarchy.NativePath
