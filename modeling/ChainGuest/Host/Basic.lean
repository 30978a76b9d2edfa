import ChainGuest.Host.Collection
import ChainGuest.Host.Handle

/-! # A host in memory

    A host that answers from what it was given beforehand. Its buffers stand in one
    linear memory, behind a reserved piece at the start, and are named by handles
    into it. Every request is remembered, so what was asked can be looked up.
-/

namespace ChainGuest

/-- `f` with another value at `k`. -/
def setAt {κ α : Type} [DecidableEq κ] (f : κ → α) (k : κ) (a : α) : κ → α :=
  fun x => if x = k then a else f x

@[simp] theorem setAt_self {κ α : Type} [DecidableEq κ] (f : κ → α) (k : κ) (a : α) :
    setAt f k a k = a := by
  simp [setAt]

@[simp] theorem setAt_ne {κ α : Type} [DecidableEq κ] (f : κ → α) {k x : κ} (a : α)
    (h : x ≠ k) : setAt f k a x = f x := by
  simp [setAt, h]

structure Host where
  memory : List UInt8
  collections : CollectionKind → Handle
  argumentValues : UInt64 → Handle
  parsedInputs : String → Handle
  parameters : String → Option String
  httpResponse : Option String
  queryResults : String → Option String
  /-- Collections that were fetched, in order. -/
  collectionRequests : List CollectionKind
  /-- Arguments whose values were fetched, in order. -/
  argumentRequests : List UInt64
  /-- Signatures and base64 inputs that were to be parsed, in order. -/
  parseRequests : List (String × String)
  incidents : List String
  httpRequests : List String
  queries : List String

namespace Host

/-- Bytes at the start of the memory that belong to no buffer. -/
def reserved : Nat := 16

/-- A host that was given nothing. -/
def new : Host where
  memory := List.replicate reserved 0
  collections := fun _ => .null
  argumentValues := fun _ => .null
  parsedInputs := fun _ => .null
  parameters := fun _ => none
  httpResponse := none
  queryResults := fun _ => none
  collectionRequests := []
  argumentRequests := []
  parseRequests := []
  incidents := []
  httpRequests := []
  queries := []

/-! ## Giving -/

/-- Put bytes behind the memory, and name them. -/
def store (bytes : List UInt8) (h : Host) : Handle × Host :=
  (.pack (UInt32.ofNat h.memory.length) (UInt32.ofNat bytes.length),
    { h with memory := h.memory ++ bytes })

/-- Serve a handle for a collection. -/
def withHandle (kind : CollectionKind) (handle : Handle) (h : Host) : Host :=
  { h with collections := setAt h.collections kind handle }

/-- Serve bytes for a collection. -/
def withCollection (kind : CollectionKind) (bytes : List UInt8) (h : Host) : Host :=
  let (handle, h) := h.store bytes
  h.withHandle kind handle

/-- Serve bytes as the value of an argument. -/
def withArgumentValue (id : UInt64) (bytes : List UInt8) (h : Host) : Host :=
  let (handle, h) := h.store bytes
  { h with argumentValues := setAt h.argumentValues id handle }

/-- Serve bytes for inputs parsed by a signature. -/
def withParsedInput (abi : String) (bytes : List UInt8) (h : Host) : Host :=
  let (handle, h) := h.store bytes
  { h with parsedInputs := setAt h.parsedInputs abi handle }

def withParameter (key value : String) (h : Host) : Host :=
  { h with parameters := setAt h.parameters key (some value) }

def withHttpResponse (response : String) (h : Host) : Host :=
  { h with httpResponse := some response }

def withQueryResult (query rows : String) (h : Host) : Host :=
  { h with queryResults := setAt h.queryResults query (some rows) }

/-! ## Answering -/

/-- The handle of a collection; null if none was given. -/
def fetchCollection (kind : CollectionKind) (h : Host) : Handle × Host :=
  (h.collections kind, { h with collectionRequests := h.collectionRequests ++ [kind] })

/-- The handle of an argument's value; null if none was given. -/
def fetchArgumentValue (id : UInt64) (h : Host) : Handle × Host :=
  (h.argumentValues id, { h with argumentRequests := h.argumentRequests ++ [id] })

/-- The handle of the values of an input; null if it does not match the signature. -/
def parseInput (abi base64 : String) (h : Host) : Handle × Host :=
  (h.parsedInputs abi, { h with parseRequests := h.parseRequests ++ [(abi, base64)] })

/-- The bytes at an offset. -/
def readMemory (offset length : UInt32) (h : Host) : Except HostError (List UInt8) :=
  (memoryRange offset length h.memory.length).map fun (start, stop) =>
    (h.memory.drop start).take (stop - start)

def emitIncident (incident : String) (h : Host) : Host :=
  { h with incidents := h.incidents ++ [incident] }

def parameter (key : String) (h : Host) : Option String := h.parameters key

/-- The response to a request; not found if none was given. -/
def http (request : String) (h : Host) : String × Host :=
  (h.httpResponse.getD "\x7b\"status\":404,\"headers\":\x7b\x7d\x7d",
    { h with httpRequests := h.httpRequests ++ [request] })

/-- The rows of a query; none if none were given. -/
def query (query : String) (h : Host) : String × Host :=
  ((h.queryResults query).getD "[]", { h with queries := h.queries ++ [query] })

/-! ## Looking back -/

/-- How often a collection was fetched. -/
def collectionFetches (kind : CollectionKind) (h : Host) : Nat := h.collectionRequests.count kind

/-- How often an argument's value was fetched. -/
def argumentFetches (id : UInt64) (h : Host) : Nat := h.argumentRequests.count id

end Host

end ChainGuest
