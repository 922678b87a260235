import WireRecords.Compilation
import WireRecords.Program.Decoding
import WireRecords.Program.Encoding
import WireRecords.Program.Fault
import WireRecords.Program.Flatten

/-!
# Generated files

The file generated for a compilation: the imports, the types of all records, their procedures, and
the helper for constants. What a host declares already is replaced by an inert item.
-/
namespace WireRecords.Program

/-- Why no file can be generated. -/
inductive GenerationError where
  | transfer (error : TransferError)
  /-- A name of the records cannot stand where it would. -/
  | malformed (fault : NameFault)
deriving DecidableEq, Repr, Inhabited

def GenerationError.diagnostic : GenerationError → Diagnostic
  | transfer error => error.diagnostic
  | malformed fault =>
    { code := none, message := s!"could not parse generated code: {fault.message}" }

def imports : List Item :=
  let allow := [Attribute.list "allow" ["unused_imports"]]
  [.imports allow "bytes" ["Buf", "BufMut"],
    .imports allow "wire9_runtime" ["DecodeError", "EncodeError", "Wire"]]

/-- The type of a stored field. -/
def fieldType : FieldType → Ty
  | .scalar s => .named s.name
  | .bytes length => .array (.named "u8") length
  | .byteRun => .path ["Vec"] [.named "u8"]
  | .slice element => .path ["Vec"] [fieldType element]
  | .nested path => .path (segments path) []
  | .boxed target => .path ["Box"] [fieldType target]
  | .constant _ => .unit

/-- The struct of a record and its initial value. -/
def declaration (r : RecordDecl) (origin : Option String) : List Item :=
  let fields := r.fields.filter (·.type.isStored)
  let doc :=
    match origin with
    | some origin => s!" Record `{r.id}` declared at {origin}."
    | none => s!" Record `{r.id}`."
  [.struct
      [.doc doc, .list "allow" ["non_camel_case_types", "non_snake_case"],
        .list "derive" ["Debug", "Clone", "PartialEq"]]
      (escape r.id) (fields.map fun f => (escape f.id, fieldType f.type)),
    .methods (some "Default") (.named (escape r.id))
      [({ name := "default", result := some (.named "Self") },
        [.expr (.construct ["Self"] (fields.map fun f => (escape f.id, defaultValue f.type)))
          false])]]

/-- The trait for records, by the procedures of the record itself. -/
def wire (r : RecordDecl) : Item :=
  let forward (name : String) : Block :=
    [.expr (.call (.path (segments r.id ++ [name])) [receiver, buffer]) false]
  let buf := Parameter.typed "buf" (.reference true (.named "B"))
  .methods (some "Wire") (recordType r)
    [({ name := "read_binary", generic := some ("B", "Buf"), parameters := [.receiver true, buf]
        result := some (fallible "DecodeError") }, forward "read_binary"),
      ({ name := "write_binary", generic := some ("B", "BufMut")
         parameters := [.receiver false, buf]
         result := some (fallible "EncodeError") }, forward "write_binary")]

/-- What stands for something that is declared at `origin` already. -/
def placeholder (record : String) (kind : SymbolKind) (origin : String) : Item :=
  .constant [.doc s!" wire9: {kind.name} of `{record}` is declared in {origin}."] "_"

/-- A part of the file, with the remarks made for it. -/
structure Part where
  journal : Journal := []
  items : Except TransferError (List Item)

namespace Part

/-- Generates what is not declared yet. -/
def unlessDeclared (c : Compilation) (r : RecordDecl) (kind : SymbolKind)
    (items : Except TransferError (List Item)) : Part :=
  match c.collisions.provenance? r.id kind with
  | none => ⟨[], items⟩
  | some origin =>
    ⟨[⟨.info, s!"skipping {kind.name} of `{r.id}`: already declared in {origin}"⟩],
      .ok [placeholder r.id kind origin]⟩

/-- Joins parts in order. Nothing is looked at after the first error. -/
def concat : List Part → Part
  | [] => ⟨[], .ok []⟩
  | p :: ps =>
    match p.items with
    | .error e => ⟨p.journal, .error e⟩
    | .ok items =>
      let rest := concat ps
      ⟨p.journal ++ rest.journal, rest.items.map (items ++ ·)⟩

end Part

/-- Whether a record's procedure is generated rather than found. -/
def isGenerated (c : Compilation) (r : RecordDecl) (kind : SymbolKind) : Bool :=
  !c.collisions.contains r.id kind

def typePart (c : Compilation) (r : RecordDecl) : Part :=
  .unlessDeclared c r .type (.ok (declaration r (c.origin? r.id)))

/-- The procedures of a record. The trait needs both to be generated here. -/
def procedureParts (c : Compilation) (r : RecordDecl) : List Part :=
  [.unlessDeclared c r .decode ((decoder c.registry r).map ([·])),
    .unlessDeclared c r .encode ((encoder c.registry r).map ([·])),
    ⟨[], .ok (if isGenerated c r .decode && isGenerated c r .encode then [wire r] else [])⟩]

/-- The helpers that the generated procedures call. -/
def helpers (c : Compilation) (records : List RecordDecl) : List Item :=
  if records.any fun r =>
      isGenerated c r .encode && r.fields.any fun f => writesConstant f.type then
    [writePadded]
  else []

/-- A record without a name is left out, which is worth a remark. -/
def anonymousRemarks (c : Compilation) : Journal :=
  (c.records.filter (·.isAnonymous)).map fun r =>
    ⟨.warn, s!"skipping anonymous record with {r.fields.length} field(s)"⟩

/-- All items of the file. -/
def generateItems (c : Compilation) : Part :=
  let records := c.records.filter (!·.isAnonymous)
  .concat
    (⟨anonymousRemarks c, .ok imports⟩ ::
      (records.map (typePart c) ++ records.flatMap (procedureParts c) ++
        [⟨[], .ok (helpers c records)⟩]))

/-- The generated file. -/
def generate (c : Compilation) (isFlat : Bool) : Journal × Except GenerationError (List Item) :=
  let p := generateItems c
  (p.journal,
    match p.items with
    | .error e => .error (.transfer e)
    | .ok items =>
      match faultOfItems? items with
      | some fault => .error (.malformed fault)
      | none => .ok (if isFlat then flattenItems items else items))

end WireRecords.Program
