import MgKdb.Ipcjs.Tracker

/-!
# Sending a message again

The id of a request is placed behind the name of the function that is called, as its first
argument.  Anything that is neither an array nor a list calls no function, and carries no id.
-/

namespace MgKdb
namespace Ipcjs

open Foundation

structure Call (γ : Type) where
  tracker : KdbTracker γ
  cbk : Option γ
  socket : Option Thrown

/-- The socket is open and the callback is a function. -/
def Call.TakesId {γ : Type} (c : Call γ) : Prop :=
  c.tracker.isConnected = true ∧ c.cbk.isSome = true

namespace Message

variable {γ : Type}

def resent (msg : Message) (c : Call γ) : Message :=
  (c.tracker.sendRequest msg c.cbk c.socket).msg

def sent (msg : Message) (c : Call γ) : Option (List UInt8) :=
  (c.tracker.sendRequest msg c.cbk c.socket).sent

def withArgument (id : KdbType) : List KdbType -> List KdbType
  | [] => [id]
  | fn :: args => fn :: id :: args

/-- The message with an id as the first argument, where it calls a function. -/
def withId (id : KdbType) : Message -> Option KdbType
  | array ary => some (.list (withArgument id ary) 0)
  | object (.list ary att) => some (.list (withArgument id ary) att)
  | object _ | other _ => none

/-- What is sent are the arguments of `msg` and one id, and `m` is the same afterwards. -/
def Reuses (msg m : Message) (c : Call γ) : Prop :=
  (forall buf, m.sent c = some buf -> exists x,
    msg.withId (newIntAtom c.tracker.queryId) = some x ∧
      serialize KdbMsgTyp.async (.list [newSymbolAtom webRequest, x] 0) = .ok buf) ∧
  m.resent c = m

/--
No `KdbList` is passed to a call that takes an id, and no object that has no arguments to a
call that sends it.
-/
def Reusable (c : Call γ) : Message -> Prop
  | array _ | other _ => True
  | object (.list _ _) => ¬ c.TakesId
  | object x => ¬ (c.TakesId ∧ c.socket = none ∧
      exists buf, serialize KdbMsgTyp.async (.list [newSymbolAtom webRequest, x] 0) = .ok buf)

theorem toSpliced_eq (ary : List KdbType) (id : KdbType) :
    toSpliced ary id = withArgument id ary := by
  cases ary with
  | nil => rfl
  | cons fn args => rfl

theorem resent_of_takesId (msg : Message) {c : Call γ} (h : c.TakesId) :
    msg.resent c = msg.after (newIntAtom c.tracker.queryId) := by
  rcases h with ⟨hopen, hcbk⟩
  rcases Option.isSome_iff_exists.mp hcbk with ⟨cbk, hcbk⟩
  rw [resent, hcbk, KdbTracker.sendRequest, hopen, newIntAtom]
  simp only [Bool.true_eq_false, if_false]
  split <;> rfl

theorem idle_of_not_takesId (msg : Message) {c : Call γ} (h : ¬ c.TakesId) :
    msg.resent c = msg ∧ msg.sent c = none := by
  rw [resent, sent]
  unfold KdbTracker.sendRequest
  cases hopen : c.tracker.isConnected with
  | false => exact ⟨rfl, rfl⟩
  | true =>
      cases hcbk : c.cbk with
      | none => exact ⟨rfl, rfl⟩
      | some cbk => exact absurd ⟨hopen, congrArg Option.isSome hcbk⟩ h

theorem sent_eq_some_iff (msg : Message) (c : Call γ) (buf : List UInt8) :
    msg.sent c = some buf <-> c.TakesId ∧ c.socket = none ∧
      msg.request (newIntAtom c.tracker.queryId) = .ok buf := by
  by_cases h : c.TakesId
  · rw [and_iff_right h]
    rcases h with ⟨hopen, hcbk⟩
    rcases Option.isSome_iff_exists.mp hcbk with ⟨cbk, hcbk⟩
    rw [sent, hcbk, KdbTracker.sendRequest, hopen, newIntAtom]
    simp only [Bool.true_eq_false, if_false]
    cases msg.request (.atom .int (chkIsInt32 c.tracker.queryId)) with
    | error e => exact iff_of_false (fun h => by cases h) (fun h => by cases h.right)
    | ok bytes =>
        cases c.socket with
        | some e => exact iff_of_false (fun h => by cases h) (fun h => by cases h.left)
        | none => simp
  · rw [(idle_of_not_takesId msg h).right]
    exact iff_of_false (fun h => by cases h) (fun hall => h hall.left)

theorem request_of_payload {msg : Message} {id x : KdbType} (h : msg.payload id = .ok x) :
    msg.request id = serialize KdbMsgTyp.async (.list [newSymbolAtom webRequest, x] 0) := by
  rw [request, h]
  rfl

theorem reuses_array (ary : List KdbType) (c : Call γ) :
    (array ary).Reuses (array ary) c := by
  refine ⟨fun buf hsent => ⟨_, rfl, ?_⟩, ?_⟩
  · have hrequest := ((sent_eq_some_iff _ c buf).mp hsent).right.right
    rw [request_of_payload rfl, toSpliced_eq] at hrequest
    exact hrequest
  · by_cases h : c.TakesId
    · exact resent_of_takesId _ h
    · exact (idle_of_not_takesId _ h).left

theorem reuses_other (e : JsError) (c : Call γ) : (other e).Reuses (other e) c := by
  refine ⟨fun buf hsent => ?_, ?_⟩
  · cases ((sent_eq_some_iff _ c buf).mp hsent).right.right
  · by_cases h : c.TakesId
    · exact resent_of_takesId _ h
    · exact (idle_of_not_takesId _ h).left

theorem reuses_list_iff (ary : List KdbType) (att : Int) (c : Call γ) :
    (object (.list ary att)).Reuses (object (.list ary att)) c <-> ¬ c.TakesId := by
  constructor
  · rintro ⟨_, hsame⟩ h
    rw [resent_of_takesId _ h, after, toSpliced_eq] at hsame
    injection hsame with hlist
    injection hlist with hary
    have hlength := congrArg List.length hary
    cases ary with
    | nil => cases hlength
    | cons fn args => simp [withArgument] at hlength
  · intro h
    rcases idle_of_not_takesId (object (.list ary att)) h with ⟨hsame, hnone⟩
    refine ⟨fun buf hsent => ?_, hsame⟩
    rw [hnone] at hsent
    cases hsent

theorem reuses_object_iff {x : KdbType}
    (hid : forall id, (object x).withId id = none)
    (hsame : forall id, (object x).payload id = .ok x ∧ (object x).after id = object x)
    (c : Call γ) :
    (object x).Reuses (object x) c <-> ¬ (c.TakesId ∧ c.socket = none ∧
      exists buf, serialize KdbMsgTyp.async (.list [newSymbolAtom webRequest, x] 0) =
        .ok buf) := by
  constructor
  · rintro ⟨hsends, _⟩ ⟨htakes, hsocket, buf, hbuf⟩
    have hrequest := request_of_payload (hsame (newIntAtom c.tracker.queryId)).left
    rcases hsends buf ((sent_eq_some_iff _ c buf).mpr ⟨htakes, hsocket, hrequest.trans hbuf⟩)
      with ⟨y, hy, _⟩
    rw [hid] at hy
    cases hy
  · intro h
    refine ⟨fun buf hsent => ?_, ?_⟩
    · rcases (sent_eq_some_iff _ c buf).mp hsent with ⟨htakes, hsocket, hrequest⟩
      rw [request_of_payload (hsame _).left] at hrequest
      exact absurd ⟨htakes, hsocket, buf, hrequest⟩ h
    · by_cases htakes : c.TakesId
      · exact (resent_of_takesId _ htakes).trans (hsame _).right
      · exact (idle_of_not_takesId _ htakes).left

theorem reuses_iff (msg : Message) (c : Call γ) : msg.Reuses msg c <-> msg.Reusable c := by
  cases msg with
  | array ary => exact iff_of_true (reuses_array ary c) trivial
  | other e => exact iff_of_true (reuses_other e c) trivial
  | object x =>
      cases x with
      | list ary att => exact reuses_list_iff ary att c
      | _ => exact reuses_object_iff (fun _ => rfl) (fun _ => ⟨rfl, rfl⟩) c

/--
However often a message is sent: each call sends its arguments with one id, and leaves it as
it was, exactly when each call is one that it can be used again after.
-/
theorem reuses_again_iff (msg : Message) (calls : List (Call γ)) :
    Along resent msg.Reuses msg calls <-> forall c, c ∈ calls -> msg.Reusable c := by
  induction calls with
  | nil => exact iff_of_true trivial (fun c hc => by cases hc)
  | cons c calls ih =>
      rw [Along, List.forall_mem_cons]
      constructor
      · rintro ⟨hfirst, hrest⟩
        rw [hfirst.right] at hrest
        exact ⟨(reuses_iff msg c).mp hfirst, ih.mp hrest⟩
      · rintro ⟨hfirst, hrest⟩
        have hreuses := (reuses_iff msg c).mpr hfirst
        refine ⟨hreuses, ?_⟩
        rw [hreuses.right]
        exact ih.mpr hrest

def functionCall : List KdbType :=
  [newSymbolAtom [102], newBoolAtom true]

def callWith (queryId : Int) : Call Unit :=
  ⟨{ KdbTracker.new with isConnected := true, queryId }, some (), none⟩

/-- A `KdbList` that is sent a second time has the ids of both calls in it. -/
theorem reuses_again_twice :
    (exists buf,
      ((object (.list functionCall 0)).resent (callWith 1)).sent (callWith 2) = some buf ∧
      serialize 0 (.list [newSymbolAtom webRequest,
        .list [newSymbolAtom [102], newIntAtom 2, newIntAtom 1, newBoolAtom true] 0] 0) =
          .ok buf) ∧
    ¬ Along resent (object (.list functionCall 0)).Reuses (object (.list functionCall 0))
      [callWith 1, callWith 2] := by
  refine ⟨⟨_, rfl, rfl⟩, ?_⟩
  rintro ⟨⟨_, hsame⟩, _⟩
  have hafter : (object (.list functionCall 0)).resent (callWith 1) =
      object (.list [newSymbolAtom [102], newIntAtom 1, newBoolAtom true] 0) := rfl
  injection hafter.symm.trans hsame with hlist
  injection hlist with hary
  exact absurd (congrArg List.length hary) (by decide)

end Message

end Ipcjs
end MgKdb
