import AuditTrail.Settings.Basic
import AuditTrail.Basic
import AuditTrail.Text.LowerCase
/-!
# Settings from the environment

A variable whose name begins with the mark of the program sets the setting whose path the rest of the
name is. Its text is read as a truth value or a number when it looks like one, and converted back when
the setting is of another sort.
-/

namespace AuditTrail

/-- A value that a setting was given, or a group of settings. -/
inductive Setting where
  | null
  | bool (b : Bool)
  | int (n : Int)
  | float (x : Float64)
  | text (s : String)
  | list (items : List Setting)
  | group (members : List (String × Setting))

instance : Inhabited Setting := ⟨.null⟩

namespace Setting

/-! ## Groups -/

/-- The settings of a group; none when it is no group. -/
def members : Setting → List (String × Setting)
  | group ms => ms
  | _ => []

/-- Sets the setting at a path. What is on the way and no group becomes one. -/
def set (value : Setting) : List String → Setting → Setting
  | [], _ => value
  | name :: rest, s =>
    group (Table.put name (set value rest ((Table.find? name s.members).getD null)) s.members)

mutual

/-- The settings that a value stands for. -/
def ofJson : Json → Setting
  | .null => null
  | .bool b => bool b
  | .number (.int n) => int n
  | .number (.float x) => float (.finite x)
  | .text s => text s
  | .array items => list (ofItems items)
  | .object ms => group (ofMembers ms)

def ofItems : List Json → List Setting
  | [] => []
  | v :: rest => ofJson v :: ofItems rest

def ofMembers : List (String × Json) → List (String × Setting)
  | [] => []
  | (n, v) :: rest => (n, ofJson v) :: ofMembers rest

end

/-! ## Conversions -/

def boolWord (b : Bool) : String := if b then "true" else "false"

def ofBoolWord? (s : String) : Option Bool :=
  if ["true", "on", "yes"].contains s then some true
  else if ["false", "off", "no"].contains s then some false
  else none

/-- The number of a text: a word for a truth value is one or zero. -/
def textInt? (lo hi : Int) (s : String) : Option Int :=
  match ofBoolWord? (Text.lower s) with
  | some b => some (if b then 1 else 0)
  | none => parseInteger lo hi s

def toText? : Setting → Option String
  | text s => some s
  | bool b => some (boolWord b)
  | int n => some (String.ofList (Json.intChars n))
  | float x => some x.text
  | _ => none

def toBool? : Setting → Option Bool
  | bool b => some b
  | int n => some (n ≠ 0)
  | float x => some (!x.isZero)
  | text s =>
    let s := Text.lower s
    if s = "1" then some true else if s = "0" then some false else ofBoolWord? s
  | _ => none

/-- The integer of a setting, if it is between two bounds. A floating point number is rounded and
brought between the bounds of a word. -/
def toInt? (lo hi : Int) (s : Setting) : Option Int :=
  let wordLo : Int := if 0 ≤ lo then 0 else minInt 64
  let wordHi : Int := if 0 ≤ lo then (wordBound 64 - 1 : Nat) else maxInt 64
  let n? : Option Int := match s with
    | int n => some n
    | bool b => some (if b then 1 else 0)
    | float x => some (x.roundWithin wordLo wordHi)
    | text s => textInt? lo hi s
    | _ => none
  n?.filter fun n => lo ≤ n ∧ n ≤ hi

/-- The word that a setting names: as a text, or as the only setting of a group. -/
def toWord? : Setting → Option String
  | text s => some (Text.lower s)
  | group [(name, _)] => some (Text.lower name)
  | _ => none

def form : SettingForm Setting where
  isNull s := match s with
    | null => true
    | _ => false
  text := toText?
  bool := toBool?
  int := toInt?
  texts s := match s with
    | list items => items.mapM toText?
    | _ => none
  word meaning s := s.toWord?.bind meaning
  group _ s := match s with
    | group ms => some fun name => Table.find? name ms
    | _ => none

end Setting

/-! ## Variables -/

/-- What the names of all variables begin with. -/
def environmentMark : List Char := "audit__".toList

/-- Two underscores separate the parts of a path, and so does a point. -/
def separateParts : List Char → List Char
  | '_' :: '_' :: rest => '.' :: separateParts rest
  | c :: rest => c :: separateParts rest
  | [] => []

/-- A character that a part of a path may have. -/
def allowsPartChar (c : Char) : Bool := isAlphanumeric c || c == '_' || c == '-'

/-- The path that the name of a variable stands for, with its parts joined by points. -/
def environmentKey? (name : String) : Option String :=
  let cs := Text.lowerChars name.toList
  if environmentMark.isPrefixOf cs then
    some (String.ofList (separateParts (cs.drop environmentMark.length)))
  else none

def settingPath? (key : String) : Option (List String) :=
  let parts := key.splitOn "."
  if parts.all fun p => !p.isEmpty && p.toList.all allowsPartChar then some parts else none

def listKey : String := "queue.brokers"

/-- What the text of a variable stands for. -/
def Setting.ofText (key value : String) : Setting :=
  let lowered := Text.lower value
  if lowered = "true" then .bool true
  else if lowered = "false" then .bool false
  else
    match parseInteger (minInt 64) (maxInt 64) value with
    | some n => .int n
    | none =>
      match Float64.ofText? value with
      | some x => .float x
      | none =>
        if key = listKey then .list ((value.splitOn ",").map .text) else .text value

/-- The settings after one variable; a variable with another name changes nothing. -/
def Setting.applyVariable (s : Setting) (name value : String) : Setting :=
  match environmentKey? name with
  | none => s
  | some key =>
    match settingPath? key with
    | none => s
    | some path => Setting.set (.ofText key value) path s

/-- The settings that variables change, the others as they are by default; `none` when one of them
cannot be converted. -/
def Settings.ofEnvironment? (environment : List (String × String)) : Option Settings :=
  let tree := environment.foldl (fun s v => s.applyVariable v.1 v.2)
    (Setting.ofJson ({} : Settings).toJson)
  Settings.read Setting.form tree

end AuditTrail
