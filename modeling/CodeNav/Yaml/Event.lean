import CodeNav.Yaml.Token

/-!
# Events of YAML

The first document of a token stream as a sequence of events: scalars, aliases, and the beginnings
and ends of collections. What is still to come is a stack of goals; each step meets the goal on top,
by an event, by further goals, or by both. A goal that the next token does not fit ends the events,
and so does the end of the tokens.
-/

namespace CodeNav.Yaml

/-- An event. Tags are given in full. -/
inductive Event where
  | alias (name : String)
  | scalar (anchor : Option String) (tag : Option TagBytes) (text : String) (style : Style)
  | sequenceStart (anchor : Option String) (tag : Option TagBytes)
  | sequenceEnd
  | mappingStart (anchor : Option String) (tag : Option TagBytes)
  | mappingEnd
deriving DecidableEq

/-- An empty scalar, where a node is missing. -/
def Event.missing : Event := .scalar none none "" .plain

/-- Something that the tokens to come have to make up. -/
inductive Goal where
  /-- A node. Only some may be collections by indentation, and of these only some may be sequences
  that are indented no further than the mapping around them. -/
  | node (inBlock atMappingIndent : Bool)
  | blockItem
  | unindentedItem
  | blockKey
  | blockValue
  | flowItem (isFirst : Bool)
  | pairKey
  | pairValue
  | pairEnd
  | flowKey (isFirst : Bool)
  | flowValue
  | emptyFlowValue
  /-- The end of the document. -/
  | documentEnd
deriving DecidableEq

abbrev Handles := List (String × TagBytes)

def corePrefix : String := "tag:yaml.org,2002:"

def standardHandles : Handles := [("!", .ofString "!"), ("!!", .ofString corePrefix)]

def resolveTag? (handles : Handles) (handle : String) (suffix : TagBytes) : Option TagBytes :=
  if handle = "" then some suffix else (handles.lookup handle).map (· ++ suffix)

def readProperties (handles : Handles) :
    List Token → Option (Option String × Option TagBytes × List Token)
  | .anchor a :: .tag h s :: rest => (resolveTag? handles h s).map (some a, some ·, rest)
  | .tag h s :: .anchor a :: rest => (resolveTag? handles h s).map (some a, some ·, rest)
  | .anchor a :: rest => some (some a, none, rest)
  | .tag h s :: rest => (resolveTag? handles h s).map (none, some ·, rest)
  | rest => some (none, none, rest)

/-- What meeting a goal comes to: events, goals in front of the others, and the tokens left. -/
abbrev Step := Option (List Event × List Goal × List Token)

def meetNode (handles : Handles) (inBlock atMappingIndent : Bool) (tokens : List Token) : Step :=
  match tokens with
  | .alias name :: rest => some ([.alias name], [], rest)
  | tokens => do
    let (anchor, tag, tokens) ← readProperties handles tokens
    match tokens with
    | [] => none
    | .scalar text style :: rest => return ([.scalar anchor tag text style], [], rest)
    | .flowSequenceStart :: rest => return ([.sequenceStart anchor tag], [.flowItem true], rest)
    | .flowMappingStart :: rest => return ([.mappingStart anchor tag], [.flowKey true], rest)
    | t :: rest =>
      if t = .blockEntry && atMappingIndent then
        return ([.sequenceStart anchor tag], [.unindentedItem], t :: rest)
      else if t = .blockSequenceStart && inBlock then
        return ([.sequenceStart anchor tag], [.blockItem], rest)
      else if t = .blockMappingStart && inBlock then
        return ([.mappingStart anchor tag], [.blockKey], rest)
      else if anchor.isSome || tag.isSome then
        return ([.scalar anchor tag "" .plain], [], t :: rest)
      else none

/-- A node, or nothing at all if the next token is one of those that may follow it. -/
def nodeUnless (stops : List Token) (node : Goal) (next : Goal) (tokens : List Token) : Step :=
  match tokens with
  | [] => none
  | t :: _ =>
    if t ∈ stops then some ([.missing], [next], tokens) else some ([], [node, next], tokens)

def Goal.meet (handles : Handles) (tokens : List Token) : Goal → Step
  | node inBlock atMappingIndent => meetNode handles inBlock atMappingIndent tokens
  | blockItem =>
    match tokens with
    | .blockEntry :: rest =>
      nodeUnless [.blockEntry, .blockEnd] (.node true false) .blockItem rest
    | .blockEnd :: rest => some ([.sequenceEnd], [], rest)
    | _ => none
  | unindentedItem =>
    match tokens with
    | [] => none
    | .blockEntry :: rest =>
      nodeUnless [.blockEntry, .key, .value, .blockEnd] (.node true false) .unindentedItem rest
    | tokens => some ([.sequenceEnd], [], tokens)
  | blockKey =>
    match tokens with
    | .key :: rest => nodeUnless [.key, .value, .blockEnd] (.node true true) .blockValue rest
    | .blockEnd :: rest => some ([.mappingEnd], [], rest)
    | _ => none
  | blockValue =>
    match tokens with
    | [] => none
    | .value :: rest => nodeUnless [.key, .value, .blockEnd] (.node true true) .blockKey rest
    | tokens => some ([.missing], [.blockKey], tokens)
  | flowItem isFirst =>
    match tokens, isFirst with
    | .flowSequenceEnd :: rest, _ => some ([.sequenceEnd], [], rest)
    | .flowEntry :: rest, false => flowItemHere rest
    | tokens, true => flowItemHere tokens
    | _, false => none
  | pairKey =>
    match tokens with
    | [] => none
    | t :: rest =>
      if t = .value || t = .flowEntry || t = .flowSequenceEnd then
        some ([.missing], [.pairValue], rest)
      else some ([], [.node false false, .pairValue], tokens)
  | pairValue =>
    match tokens with
    | [] => none
    | .value :: rest =>
      nodeUnless [.flowEntry, .flowSequenceEnd] (.node false false) .pairEnd rest
    | tokens => some ([.missing], [.pairEnd], tokens)
  | pairEnd => if tokens = [] then none else some ([.mappingEnd], [], tokens)
  | flowKey isFirst =>
    match tokens, isFirst with
    | .flowMappingEnd :: rest, _ => some ([.mappingEnd], [], rest)
    | .flowEntry :: rest, false => flowKeyHere rest
    | tokens, true => flowKeyHere tokens
    | _, false => none
  | flowValue =>
    match tokens with
    | [] => none
    | .value :: rest =>
      nodeUnless [.flowEntry, .flowMappingEnd] (.node false false) (.flowKey false) rest
    | tokens => some ([.missing], [.flowKey false], tokens)
  | emptyFlowValue => if tokens = [] then none else some ([.missing], [.flowKey false], tokens)
  | documentEnd => none
where
  /-- An item behind the comma, if there is one: a node, or a pair that is a mapping of its own. -/
  flowItemHere : List Token → Step
    | [] => none
    | .key :: rest => some ([.mappingStart none none], [.pairKey, .flowItem false], rest)
    | .flowSequenceEnd :: rest => some ([.sequenceEnd], [], rest)
    | tokens => some ([], [.node false false, .flowItem false], tokens)
  /-- A key behind the comma, if there is one. -/
  flowKeyHere : List Token → Step
    | [] => none
    | .key :: rest =>
      nodeUnless [.value, .flowEntry, .flowMappingEnd] (.node false false) .flowValue rest
    | .flowMappingEnd :: rest => some ([.mappingEnd], [], rest)
    | tokens => some ([], [.node false false, .emptyFlowValue], tokens)

def endsStream : List Token → Bool
  | .documentEnd :: rest => endsStream rest
  | .streamEnd :: _ => true
  | _ => false

/-- The events of a document up to where its tokens do not fit, and whether the document is whole
and the only one. -/
def eventsOf (handles : Handles) : Nat → List Goal → List Token → List Event × Bool
  | 0, _, _ => ([], false)
  | _ + 1, [], _ => ([], false)
  | _ + 1, .documentEnd :: _, tokens => ([], endsStream tokens)
  | steps + 1, goal :: goals, tokens =>
    match goal.meet handles tokens with
    | none => ([], false)
    | some (events, more, rest) =>
      let (following, whole) := eventsOf handles steps (more ++ goals) rest
      (events ++ following, whole)

/-- The directives in front of a document: the handles they define, and the tokens behind them. A
handle is defined once, and so is the version, which has to be 1.1 or 1.2. -/
def readDirectives (hasVersion : Bool) (handles : Handles) :
    List Token → Option (Handles × List Token)
  | .versionDirective major minor :: rest =>
    if hasVersion || major ≠ 1 || (minor ≠ 1 && minor ≠ 2) then none
    else readDirectives true handles rest
  | .tagDirective handle expansion :: rest =>
    if (handles.lookup handle).isSome then none
    else readDirectives hasVersion (handles ++ [(handle, expansion)]) rest
  | rest => some (handles, rest)

/-- A document: its events up to where it is malformed, and whether it is whole and the only one in
its text. -/
structure Document where
  events : List Event
  whole : Bool
deriving DecidableEq

/-- The document that begins behind its start mark, if it has one. A document without content is a
missing node. -/
def Document.ofContent (handles : Handles) (isExplicit : Bool) (tokens : List Token) : Document :=
  let goals := [Goal.node true false, .documentEnd]
  let hasNone :=
    match tokens with
    | .versionDirective .. :: _ | .tagDirective .. :: _ | .documentStart :: _ | .documentEnd :: _
    | .streamEnd :: _ => true
    | _ => false
  let (events, whole) :=
    if isExplicit && hasNone then
      let (events, whole) := eventsOf handles 1 [.documentEnd] tokens
      (.missing :: events, whole)
    else eventsOf handles (4 * tokens.length + 4) goals tokens
  ⟨events, whole⟩

/-- The first document of a token stream. A stream without any is a missing node. -/
def Document.ofTokens : List Token → Document
  | .streamStart :: .streamEnd :: _ => ⟨[.missing], true⟩
  | .streamStart :: tokens =>
    match tokens with
    | .versionDirective .. :: _ | .tagDirective .. :: _ | .documentStart :: _ =>
      match readDirectives false [] tokens with
      | some (handles, .documentStart :: rest) =>
        let standard := standardHandles.filter fun h => (handles.lookup h.1).isNone
        .ofContent (handles ++ standard) true rest
      | _ => ⟨[], false⟩
    | tokens => .ofContent standardHandles false tokens
  | _ => ⟨[], false⟩

def Document.ofText (text : List Char) : Document := .ofTokens (tokens text)

end CodeNav.Yaml
