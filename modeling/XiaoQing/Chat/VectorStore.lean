import XiaoQing.Framework.Dict
import XiaoQing.Commands.CommandRouter

namespace XiaoQing.Chat.Memory

open Framework

/-- A value in the metadata of a document. -/
inductive MetaValue (ν : Type*)
  | str (s : String)
  | bool (b : Bool)
  | time (t : Int)
  | other (v : ν)
deriving DecidableEq

abbrev Meta (ν : Type*) := OrderedDict String (MetaValue ν)

structure VectorDoc (ν : Type*) where
  docId : String
  text : String
  metadata : Meta ν
deriving DecidableEq

variable {ν ρ σ τ δ : Type*}

def sameMeta [DecidableEq ν] (a b : Meta ν) : Bool :=
  a.length=b.length && a.all fun e => OrderedDict.get? b e.1=some e.2

def VectorDoc.same [DecidableEq ν] (d e : VectorDoc ν) : Bool :=
  d.docId=e.docId && d.text=e.text && sameMeta d.metadata e.metadata

/-- `json.dumps([asdict(doc) for doc in docs], …).encode("utf-8")`, or what it refuses, and the
hash of a text. -/
structure Hashing (ν τ δ : Type*) where
  dumps : List (VectorDoc ν) → Option τ
  sha256 : τ → δ

def docsContentDigest (h : Hashing ν τ δ) (docs : List (VectorDoc ν)) : Option δ :=
  (h.dumps docs).map h.sha256

/-- The normalised embedding of a text, the products of rows with a vector, and the positions in
ascending order. -/
structure Vectors (ρ σ : Type*) where
  embed : String → ρ
  products : List ρ → ρ → List σ
  argsort : List σ → List Nat

structure VectorStore (ν ρ : Type*) where
  docs : List (VectorDoc ν) := []
  idToIdx : OrderedDict String Nat := []
  matrix : Option (List ρ) := none
  rows : List (Option ρ) := []

namespace VectorStore

def upsert (s : VectorStore ν ρ) (doc : VectorDoc ν) : VectorStore ν ρ :=
  match s.idToIdx.get? doc.docId with
  | none =>
    { docs := s.docs++[doc]
      idToIdx := s.idToIdx.assign doc.docId s.docs.length
      matrix := none
      rows := s.rows++[none] }
  | some idx =>
    if (s.docs[idx]?).map VectorDoc.text=some doc.text then {s with docs := s.docs.set idx doc}
    else
      {s with
        docs := s.docs.set idx doc
        rows := s.rows.set idx none
        matrix := none}

def delete (s : VectorStore ν ρ) (docId : String) : VectorStore ν ρ :=
  match s.idToIdx.get? docId with
  | none => s
  | some idx =>
    { docs := s.docs.eraseIdx idx
      idToIdx := positions VectorDoc.docId (s.docs.eraseIdx idx)
      matrix := none
      rows := s.rows.eraseIdx idx }

def build (v : Vectors ρ σ) (s : VectorStore ν ρ) : VectorStore ν ρ :=
  match s.matrix with
  | some _ => s
  | none =>
    if s.docs=[] then {s with matrix := some []}
    else
      let rows := if s.rows.length=s.docs.length then s.rows else List.replicate s.docs.length none
      let filled := List.zipWith (fun r d => r.getD (v.embed d.text)) rows s.docs
      {s with
        rows := filled.map some
        matrix := some filled}

def hit [LT σ] [DecidableLT σ] (s : VectorStore ν ρ) (scores : List σ) (candidates : List Nat)
    (minScore : σ) (position : Nat) : Option (VectorDoc ν × σ) :=
  scores[position]?.bind fun score =>
    if score < minScore then none
    else candidates[position]?.bind fun index => (s.docs[index]?).map fun doc => (doc,score)

def ranked [LT σ] [DecidableLT σ] (v : Vectors ρ σ) (s : VectorStore ν ρ) (text : String) (topK : Nat)
    (minScore : σ) (predicate : VectorDoc ν → Bool) : List (VectorDoc ν × σ) :=
  match s.matrix with
  | none | some [] => []
  | some m =>
    let candidates := (List.range s.docs.length).filter fun i => (s.docs[i]?).any predicate
    if candidates=[] then []
    else
      let scores := v.products (candidates.filterMap fun i => m[i]?) (v.embed text)
      ((v.argsort scores).reverse.take topK).filterMap (s.hit scores candidates minScore)

def query [LT σ] [DecidableLT σ] (v : Vectors ρ σ) (s : VectorStore ν ρ) (text : String) (topK : Int)
    (minScore : σ) (predicate : VectorDoc ν → Bool) : VectorStore ν ρ × List (VectorDoc ν × σ) :=
  if topK ≤ 0 then (s,[])
  else (s.build v,(s.build v).ranked v text topK.toNat minScore predicate)

def ofDocs (docs : List (VectorDoc ν)) : VectorStore ν ρ := docs.foldl upsert {}

end VectorStore

/-! The two files -/

/-- What reading `.docs.json` comes to: an `OSError`, another error, or a list, of which only the
dicts count; of a dict's id and text it is `str` of them. -/
inductive DocsFile (ν : Type*)
  | missing
  | unreadable
  | broken
  | items (l : List (Option (VectorDoc ν)))

/-- The members of `.vecs.npz`; `none` is a matrix that has other columns, or is no matrix of
finite real numbers. -/
structure Archive (ρ δ : Type*) where
  dim : Int
  matrix : Option (List ρ)
  docsDigest : δ

/-- Reading a damaged file raises, or misses a member or a scalar. -/
inductive VecsFile (ρ δ : Type*)
  | missing
  | damaged
  | archive (a : Archive ρ δ)

def stripped (s : String) : String := String.ofList (Commands.strip s.toList)

def readDoc (item : VectorDoc ν) : Option (VectorDoc ν) :=
  if stripped item.docId≠"" ∧ stripped item.text≠"" then
    some ⟨stripped item.docId,stripped item.text,item.metadata⟩
  else none

def readDocs : DocsFile ν → List (VectorDoc ν)
  | .missing | .unreadable | .broken => []
  | .items l => (l.filterMap id).filterMap readDoc

def validateCachedMatrix (a : Archive ρ δ) (expectedRows : Nat) : Option (List ρ) :=
  a.matrix.filter fun m => m.length=expectedRows

/-- The matrix that a file holds of these documents, if it can be used. -/
def cachedMatrix [DecidableEq δ] (h : Hashing ν τ δ) (dim : Int) (docs : List (VectorDoc ν)) :
    VecsFile ρ δ → Option (List ρ)
  | .missing | .damaged => none
  | .archive a =>
    if a.dim≠dim ∨ docsContentDigest h docs≠some a.docsDigest then none
    else validateCachedMatrix a docs.length

def VectorStore.load [DecidableEq δ] (h : Hashing ν τ δ) (dim : Int) (docsFile : DocsFile ν)
    (vecsFile : VecsFile ρ δ) : VectorStore ν ρ :=
  let s := VectorStore.ofDocs (readDocs docsFile)
  if s.docs=[] then s
  else
    match cachedMatrix h dim s.docs vecsFile with
    | none => s
    | some m => {s with matrix := some m,rows := m.map some}

/-! The configured knowledge -/

inductive KnowledgeError
  | invalidNamespace
  | empty
  | duplicate
  | notApproved
  | conflict
deriving DecidableEq

def KnowledgeError.message : KnowledgeError → String
  | .invalidNamespace => "configured knowledge document has an invalid namespace"
  | .empty => "configured knowledge document is empty"
  | .duplicate => "configured knowledge document IDs must be unique"
  | .notApproved => "configured knowledge document is not globally approved"
  | .conflict => "configured knowledge ID conflicts with another memory type"

def configuredKnowledgePrefix : String := "kb:"

def inNamespace (docId : String) : Bool := configuredKnowledgePrefix.toList.isPrefixOf docId.toList

def withoutTime (m : Meta ν) : Meta ν := OrderedDict.discard m (· = "updated_at")

section
variable [DecidableEq ν]

def requested (seen : List String) : List (VectorDoc ν) → Except KnowledgeError (List (VectorDoc ν))
  | [] => .ok []
  | d::ds =>
    if !inNamespace d.docId then .error .invalidNamespace
    else if stripped d.text="" then .error .empty
    else if d.docId∈seen then .error .duplicate
    else if OrderedDict.get? (withoutTime d.metadata) "type"≠some (.str "knowledge") ∨
        OrderedDict.get? (withoutTime d.metadata) "global_approved"≠some (.bool true) then
      .error .notApproved
    else (requested (d.docId::seen) ds).map (⟨d.docId,d.text,withoutTime d.metadata⟩::·)

def isManaged (d : VectorDoc ν) : Bool :=
  inNamespace d.docId && OrderedDict.get? d.metadata "type"=some (.str "knowledge")

def resolve (managed : List (VectorDoc ν)) (publishedAt : Int) (d : VectorDoc ν) : VectorDoc ν :=
  let published : VectorDoc ν := ⟨d.docId,d.text,OrderedDict.assign d.metadata "updated_at" (.time publishedAt)⟩
  match managed.find? fun e => e.docId=d.docId with
  | none => published
  | some previous =>
    if previous.text=d.text ∧ sameMeta (withoutTime previous.metadata) d.metadata then previous
    else published

def retained (current : List (VectorDoc ν)) : List (VectorDoc ν) :=
  current.filter fun d => d.docId∉(current.filter isManaged).map VectorDoc.docId

def sameDocs (ds es : List (VectorDoc ν)) : Bool :=
  ds.length=es.length && (ds.zip es).all fun p => p.1.same p.2

def replaceConfiguredKnowledge (s : VectorStore ν ρ) (documents : List (VectorDoc ν)) (publishedAt : Int) :
    Except KnowledgeError (VectorStore ν ρ × Bool) :=
  match requested [] documents with
  | .error e => .error e
  | .ok wanted =>
    let kept := retained s.docs
    if wanted.any fun d => d.docId∈kept.map VectorDoc.docId then .error .conflict
    else
      let docs := kept++wanted.map (resolve (s.docs.filter isManaged) publishedAt)
      if sameDocs docs s.docs then .ok (s,false)
      else .ok (VectorStore.ofDocs docs,true)

end

/-! The memory database and its directory -/

structure MemoryDB (ν ρ δ : Type*) where
  store : VectorStore ν ρ := {}
  /-- The documents and the matrix of a save under way. -/
  saving : Option (List (VectorDoc ν) × List ρ) := none
  docsFile : DocsFile ν := .missing
  vecsFile : VecsFile ρ δ := .missing

inductive MemoryAct (ν ρ σ δ : Type*)
  | upsert (doc : VectorDoc ν)
  | delete (docId : String)
  | replaceConfiguredKnowledge (documents : List (VectorDoc ν)) (publishedAt : Int)
  | build
  | query (text : String) (topK : Int) (minScore : σ) (predicate : VectorDoc ν → Bool)
  | load
  /-- A save takes its copies, and writes one file after the other unless it fails. -/
  | snapshot
  | writeDocs
  | writeVectors
  | saved
  /-- The files are changed by others. -/
  | disturb (docsFile : DocsFile ν) (vecsFile : VecsFile ρ δ)

/-- What the store reads from; the metadata that was written as JSON is read back. -/
structure Environment (ν ρ σ τ δ : Type*) where
  dim : Int
  vectors : Vectors ρ σ
  hashing : Hashing ν τ δ
  reread : Meta ν → Meta ν

namespace MemoryDB
variable [DecidableEq ν] [DecidableEq δ] [LT σ] [DecidableLT σ]

def step (w : Environment ν ρ σ τ δ) (s : MemoryDB ν ρ δ) : MemoryAct ν ρ σ δ → Option (MemoryDB ν ρ δ)
  | .upsert doc => some {s with store := s.store.upsert doc}
  | .delete docId => some {s with store := s.store.delete docId}
  | .replaceConfiguredKnowledge documents publishedAt =>
    match Memory.replaceConfiguredKnowledge s.store documents publishedAt with
    | .error _ => some s
    | .ok (store,_) => some {s with store := store}
  | .build => some {s with store := s.store.build w.vectors}
  | .query text topK minScore predicate =>
    some {s with store := (s.store.query w.vectors text topK minScore predicate).1}
  | .load => some {s with store := VectorStore.load w.hashing w.dim s.docsFile s.vecsFile}
  | .snapshot =>
    let store := s.store.build w.vectors
    if s.saving.isSome then none
    else some {s with store := store,saving := some (store.docs,store.matrix.getD [])}
  | .writeDocs => s.saving.map fun x =>
    {s with docsFile := .items (x.1.map fun d => some {d with metadata := w.reread d.metadata})}
  | .writeVectors => s.saving.bind fun x =>
    (docsContentDigest w.hashing x.1).map fun digest =>
      {s with vecsFile := .archive ⟨w.dim,some x.2,digest⟩}
  | .saved => s.saving.map fun _ => {s with saving := none}
  | .disturb docsFile vecsFile => some {s with docsFile := docsFile,vecsFile := vecsFile}

end MemoryDB

end XiaoQing.Chat.Memory
