import AgentTrajectory.PyJsonRoundtrip
import AgentTrajectory.Sha256
import AgentTrajectory.PrefixTree

/-! The message tree of `message_tree.py`. A call is laid out as the path of its
fingerprints, the tree is grown along it, and the thread id is anchored at the first
assistant node of the path. A node is referred to by its path of fingerprints. -/
namespace AgentTrajectory.MessageTree
open PyText PyDict PyJson

/-- `_sha`: the encoding fails on a lone surrogate. -/
def sha (s : PyStr) : Except PyError PyStr :=
  match encodeUtf8 s with
  | none => .error .unicodeEncodeError
  | some bs => .ok (Sha256.hexdigest bs)

def billingPrefix : PyStr := py "x-anthropic-billing-header"

def isBillingBlock : Json → Bool
  | .obj kvs =>
      match get? kvs (py "text") with
      | some (.str t) => startswith t billingPrefix
      | _ => false
  | _ => false

def stripBillingBlocks : Json → Json
  | .arr bs => .arr (bs.filter fun b => !isBillingBlock b)
  | system => system

def systemFp (system : Json) : Except PyError PyStr := do
  let h ← sha (stripBillingBlocks system).dumpsSorted
  .ok (py "sys:" ++ h)

/-- What `_msg_fingerprint` hashes of a message. -/
def fingerprinted (m : Dict PyStr Json) : Json :=
  .obj [(py "role", getNone m (py "role")), (py "content", getNone m (py "content"))]

def msgFingerprint (m : Dict PyStr Json) : Except PyError PyStr := sha (fingerprinted m).dumpsSorted

/-- `m.get("role") or "?"`. -/
def roleOf (m : Dict PyStr Json) : Json :=
  let r := getNone m (py "role")
  if r.truthy then r else .str (py "?")

def unitSep : PyStr := [31]

def branchId (keys : List PyStr) : Except PyError PyStr := do
  let h ← sha (join unitSep keys)
  .ok (py "t" ++ h.take 12)

structure Node where
  fp : PyStr
  role : Json
  isAnchor : Bool
  branchId : Option PyStr

abbrev Tree := PrefixTree PyStr Node

def Tree.empty : Tree := .leaf ⟨py "__root__", .str (py "root"), false, none⟩

def messageStep : Json → Except PyError (Json × PyStr)
  | .obj m => do
      let fp ← msgFingerprint m
      .ok (roleOf m, fp)
  | _ => .error .attributeError

def messageSteps : List Json → Except PyError (List (Json × PyStr))
  | [] => .ok []
  | m :: ms => do
      let s ← messageStep m
      let rest ← messageSteps ms
      .ok (s :: rest)

/-- `_call_seq`: the system prompt is the virtual level zero. -/
def callSeq (system : Json) (messages : List Json) : Except PyError (List (Json × PyStr)) := do
  let fp ← systemFp system
  let rest ← messageSteps messages
  .ok ((.str (py "system"), fp) :: rest)

abbrev Ref := List PyStr × List PyStr

/-- The loop of `mount_call`. It returns the grown tree even when a role that is not a
string makes `role + ":"` raise. -/
def mountLoop (t : Tree) (node : Ref) (anchor : Option Ref) :
    List (Json × PyStr) → Tree × Except PyError (Ref × Option Ref)
  | [] => (t, .ok (node, anchor))
  | (role, fp) :: rest =>
      let t' := t.ensureAt node.1 fp ⟨fp, role, false, none⟩
      match role with
      | .str r =>
          let child : Ref := (node.1 ++ [fp], node.2 ++ [r ++ py ":" ++ fp])
          mountLoop t' child (if anchor.isNone && r == py "assistant" then
            some child else anchor) rest
      | _ => (t', .error .typeError)

/-- The end of `mount_call` on its anchor: mark it, fill its id if it has none, return it. -/
def stamp (t : Tree) (anchor : Ref) (real : Bool) : Tree × Except PyError PyStr :=
  let t' := if real then t.updateAt anchor.1 fun d => { d with isAnchor := true } else t
  match (t'.valAt anchor.1).bind Node.branchId with
  | some b => (t', .ok b)
  | none =>
      match branchId anchor.2 with
      | .error e => (t', .error e)
      | .ok b => (t'.updateAt anchor.1 fun d => { d with branchId := some b }, .ok b)

/-- `mount_call`: the grown tree and `(thread_id, provisional)`. -/
def mountCall (t : Tree) (system : Json) (messages : List Json) :
    Tree × Except PyError (PyStr × Bool) :=
  match callSeq system messages with
  | .error e => (t, .error e)
  | .ok seq =>
      match mountLoop t ([], []) none seq with
      | (t', .error e) => (t', .error e)
      | (t', .ok (last, none)) =>
          let r := stamp t' last false
          (r.1, r.2.map fun b => (b, true))
      | (t', .ok (_, some anchor)) =>
          let r := stamp t' anchor true
          (r.1, r.2.map fun b => (b, false))

def walkToAnchor : Tree → List (Json × PyStr) → Option Tree
  | t, [] => some t
  | t, (role, fp) :: rest =>
      match get? t.children fp with
      | none => none
      | some c => if role = .str (py "assistant") then some c else walkToAnchor c rest

def uniqueDescendantThread (t : Tree) (system : Json) (messages : List Json) :
    Except PyError (Option PyStr) := do
  let seq ← callSeq system messages
  match walkToAnchor t seq with
  | none => .ok none
  | some n =>
      let ids : List PyStr := n.values.filterMap fun d =>
        if d.isAnchor then d.branchId.filter fun b => !b.isEmpty else none
      match ids.dedup with
      | [b] => .ok (some b)
      | _ => .ok none

/-- The part of an API call the tree reads. Parsed JSON has distinct keys. -/
structure ApiCall where
  system : Json
  messages : List Json
  wf_system : system.wf = true
  wf_messages : ∀ m ∈ messages, m.wf = true

def mount (t : Tree) (c : ApiCall) : Tree × Except PyError (PyStr × Bool) :=
  mountCall t c.system c.messages

/-- The tree after mounting calls in order. -/
def mountAll (t : Tree) (calls : List ApiCall) : Tree := calls.foldl (fun t c => (mount t c).1) t

/-- `replay_session`, collecting what each `mount_call` gives. -/
def replaySession (t : Tree) : List ApiCall → List (Except PyError (PyStr × Bool))
  | [] => []
  | c :: cs => (mount t c).2 :: replaySession (mount t c).1 cs

/-- The id the capture proxy stamps: a fresh tree for every call. -/
def stampOnline (c : ApiCall) : Except PyError (PyStr × Bool) := (mount Tree.empty c).2

/-- The strings whose digests identify the system prompt and the messages of a call. -/
def ApiCall.hashed (c : ApiCall) : List PyStr :=
  (stripBillingBlocks c.system).dumpsSorted :: c.messages.filterMap fun m =>
    match m with
    | .obj kvs => some (fingerprinted kvs).dumpsSorted
    | _ => none

/-- No two of the strings share a digest. -/
def NoCollision (f : PyStr → Except PyError PyStr) (strings : List PyStr) : Prop :=
  ∀ s ∈ strings, ∀ t ∈ strings, ∀ d, f s = .ok d → f t = .ok d → s = t

instance (f : PyStr → Except PyError PyStr) (strings : List PyStr) :
    Decidable (NoCollision f strings) :=
  decidable_of_iff (∀ s ∈ strings, ∀ t ∈ strings, (f s).isOk = true → f s = f t → s = t) <| by
    refine forall₂_congr fun s _ => forall₂_congr fun t _ => ?_
    cases h : f s with
    | error e => simp [Except.isOk, Except.toBool]
    | ok d =>
      exact ⟨fun hst d' hd ht => hst rfl (by rw [ht, ← hd]),
        fun hst _ ht => hst d rfl ht.symm⟩

end AgentTrajectory.MessageTree
