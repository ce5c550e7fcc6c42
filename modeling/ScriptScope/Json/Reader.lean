import ScriptScope.Json.Token

/-!
# ScriptScope.Json.Reader

The value of a JSON document.

`Reader` keeps the arrays and objects that are still open, innermost first, and what may come next;
`Reader.step` takes one token. The document is read from left to right without looking ahead and
without going back, however deeply its values nest.

* `parse`: the value of a document that holds exactly one value.
-/

namespace ScriptScope
namespace Json

/-- An array or object whose end has not come; its contents are in reverse. -/
inductive Level where
  | array (items : List Json)
  | object (members : List (Option String × Json))
  /-- An object behind the colon of a member. -/
  | member (members : List (Option String × Json)) (key : Option String)

/-- What may come next. -/
inductive Expectation where
  | value
  /-- The first item of an array, or its end. -/
  | firstItem
  | key
  /-- The first key of an object, or its end. -/
  | firstKey
  | colon
  /-- A comma, or the end of the innermost array or object. -/
  | more
  /-- The end of the document. -/
  | finished (root : Json)

structure Reader where
  levels : List Level
  expects : Expectation

namespace Reader

/-- Before the first token. -/
def start : Reader := ⟨[], .value⟩

/-- Takes a complete value where one may come. -/
def complete (levels : List Level) (value : Json) : Option Reader :=
  match levels with
  | [] => some ⟨[], .finished value⟩
  | .array items :: outer => some ⟨.array (value :: items) :: outer, .more⟩
  | .member members key :: outer => some ⟨.object ((key, value) :: members) :: outer, .more⟩
  | .object _ :: _ => none

/-- Takes a token that begins a value. -/
def beginValue (levels : List Level) : Token → Option Reader
  | .beginArray => some ⟨.array [] :: levels, .firstItem⟩
  | .beginObject => some ⟨.object [] :: levels, .firstKey⟩
  | .scalar value => complete levels (.scalar value)
  | _ => none

/-- Takes the key of a member of the innermost object. -/
def beginMember (levels : List Level) : Token → Option Reader
  | .scalar (.text key) =>
    match levels with
    | .object members :: outer => some ⟨.member members key :: outer, .colon⟩
    | _ => none
  | _ => none

/-- Takes the end of the innermost array or object, or a comma in it. -/
def continueLevel (levels : List Level) (token : Token) : Option Reader :=
  match levels, token with
  | .array items :: outer, .endArray => complete outer (.array items.reverse)
  | .object members :: outer, .endObject => complete outer (.object members.reverse)
  | .array _ :: _, .comma => some ⟨levels, .value⟩
  | .object _ :: _, .comma => some ⟨levels, .key⟩
  | _, _ => none

/-- Takes a token. -/
def step (reader : Reader) (token : Token) : Option Reader :=
  match reader.expects with
  | .value => beginValue reader.levels token
  | .firstItem =>
    if token = .endArray then continueLevel reader.levels token
    else beginValue reader.levels token
  | .key => beginMember reader.levels token
  | .firstKey =>
    if token = .endObject then continueLevel reader.levels token
    else beginMember reader.levels token
  | .colon => if token = .colon then some ⟨reader.levels, .value⟩ else none
  | .more => continueLevel reader.levels token
  | .finished _ => none

def run (reader : Reader) (tokens : List Token) : Option Reader :=
  tokens.foldlM step reader

/-- The value, when the document is at its end. -/
def root? (reader : Reader) : Option Json :=
  match reader.expects with
  | .finished root => some root
  | _ => none

@[simp] theorem run_nil (reader : Reader) : reader.run [] = some reader := rfl

theorem run_append (reader : Reader) (front back : List Token) :
    reader.run (front ++ back) = (reader.run front).bind (·.run back) := by
  simp [run, List.foldlM_append]

end Reader

/-- A document that is being read character by character. -/
structure Reading where
  scan : Scan
  reader : Reader

namespace Reading

def step (r : Reading) (c : Char) : Option Reading :=
  (r.scan.step c).bind fun (tokens, scan) =>
    (r.reader.run tokens).map fun reader => ⟨scan, reader⟩

def run (r : Reading) (cs : List Char) : Option Reading :=
  cs.foldlM step r

/-- The value, at the end of the document. -/
def finish (r : Reading) : Option Json :=
  r.scan.finish.bind fun tokens => (r.reader.run tokens).bind Reader.root?

@[simp] theorem run_nil (r : Reading) : r.run [] = some r := rfl

theorem run_cons (r : Reading) (c : Char) (cs : List Char) :
    r.run (c :: cs) = (r.step c).bind (·.run cs) := rfl

theorem run_append (r : Reading) (front back : List Char) :
    r.run (front ++ back) = (r.run front).bind (·.run back) := by
  simp [run, List.foldlM_append]

end Reading

def parseChars (cs : List Char) : Option Json :=
  (Reading.run ⟨.between, Reader.start⟩ cs).bind Reading.finish

/-- The value that a document writes. -/
def parse (text : String) : Option Json :=
  parseChars text.toList

end Json
end ScriptScope
