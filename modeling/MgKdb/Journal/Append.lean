import MgKdb.Journal.Init
import MgKdb.Journal.UpdFilter

/-!
# Writing behind what a journal has

A journal that was opened for writing is to grow at its end.  Where the first payload
goes depends on the offset that `init` leaves behind.
-/

namespace MgKdb

open Foundation

/-! The callback that counts, on the payloads of a journal. -/

namespace KdbJournal

theorem answers_counter : Answers counter :=
  fun _ _ => Or.inr (Or.inl rfl)

theorem replay_counter {jnl : List UInt8} (ps : List Payload) :
    forall (n : Nat) (st : JnlState Unit), ps.length <= n ->
      jnl.drop st.off = Payload.bytesAll ps ->
      (replay counter n st ps).1.length = ps.length ∧
        (replay counter n st ps).2 = ps.length ∧
        (replay counter n st ps).1.map (fun call => (jnl.drop call.off).take call.len) =
          ps.map Payload.bytes := by
  induction ps with
  | nil =>
      intro n st _ _
      have hnone : replay counter n st ([] : List Payload) = ([], 0) := by
        cases n <;> rfl
      rw [hnone]
      exact ⟨rfl, rfl, rfl⟩
  | cons p ps ih =>
      intro n st hn hdrop
      cases n with
      | zero =>
          rw [List.length_cons] at hn
          omega
      | succ n =>
          rw [Payload.bytesAll] at hdrop
          rw [replay, if_neg (by rw [counter]; omega)]
          have hmore := ih n
            { off := st.off + p.bytes.length
              msgCount := st.msgCount + 1
              useCount := u64 (st.useCount + 1)
              client := () } (by rw [List.length_cons] at hn; omega)
            (by simp only; rw [← List.drop_drop, hdrop, List.drop_left])
          refine ⟨?_, ?_, ?_⟩
          · rw [List.length_cons, List.length_cons]
            exact congrArg (fun k => k + 1) hmore.left
          · have huse := hmore.right.left
            simp only [counter, List.length_cons] at huse ⊢
            rw [huse]
            push_cast
            omega
          · rw [List.map_cons, List.map_cons, hdrop, List.take_left]
            exact congrArg (fun xss => p.bytes :: xss) hmore.right.right

end KdbJournal

/-- A scan that goes far enough is shown these payloads and nothing else. -/
def ScansAs (jnl : List UInt8) (ps : List Payload) : Prop :=
  forall max_count, ps.length <= max_count -> max_count < 2 ^ 64 ->
    exists calls,
      filterMsgs jnl max_count KdbJournal.counter () =
        (calls, some (.done ps.length ps.length)) ∧
      calls.map (fun call => (jnl.drop call.off).take call.len) = ps.map Payload.bytes

theorem scansAs_of_framed {hdr : List UInt8} (hhdr : hdr.length = 8) {ps : List Payload}
    (hwf : forall p, p ∈ ps -> p.WellFormed) (hfit : forall p, p ∈ ps -> p.DictsFit) :
    ScansAs (hdr ++ (ps.map Payload.bytes).flatten) ps := by
  intro max_count hlen hmax
  have hdrop : (hdr ++ (ps.map Payload.bytes).flatten).drop
      (filterStart ()).off = Payload.bytesAll ps := by
    rw [filterStart, ← hhdr, List.drop_left, Payload.bytesAll_eq_flatten]
  rcases KdbJournal.replay_counter ps max_count (filterStart ()) hlen hdrop with
    ⟨hcalls, huse, hmap⟩
  refine ⟨_, ?_, hmap⟩
  rw [filterMsgs_payloads hdr hhdr ps hwf max_count hmax KdbJournal.counter
    KdbJournal.answers_counter () (fun p hp => hfit p (List.mem_of_mem_take hp)), hcalls,
    huse, Int.toNat_natCast]

/-- The content of a journal, or of a file that has not become one yet. -/
def IsJournal (content : List UInt8) (ps : List Payload) : Prop :=
  content = [] ∧ ps = [] ∨
    exists hdr, hdr.length = 8 ∧ content = hdr ++ (ps.map Payload.bytes).flatten

structure Appended (content : List UInt8) (old new : List Payload) (file : List UInt8) :
    Prop where
  kept : content <+: file
  framed : exists hdr, hdr.length = 8 ∧
    file = hdr ++ ((old ++ new).map Payload.bytes).flatten
  /-- Dicts of 2^31 bytes or more are beyond the scanner. -/
  scans : (forall p, p ∈ old ++ new -> p.DictsFit) -> ScansAs file (old ++ new)

theorem appended_of_eq {hdr : List UInt8} (hhdr : hdr.length = 8) {content file : List UInt8}
    {old new : List Payload} (hkept : content <+: hdr ++ (old.map Payload.bytes).flatten)
    (hold : forall p, p ∈ old -> p.WellFormed) (hnew : forall p, p ∈ new -> p.WellFormed)
    (hfile : file = hdr ++ (old.map Payload.bytes).flatten ++
      (new.map Payload.bytes).flatten) : Appended content old new file := by
  have hall : file = hdr ++ ((old ++ new).map Payload.bytes).flatten := by
    rw [hfile, List.map_append, List.flatten_append, List.append_assoc]
  refine ⟨?_, ⟨hdr, hhdr, hall⟩, ?_⟩
  · rw [hfile]
    exact hkept.trans (List.prefix_append _ _)
  · intro hfit
    rw [hall]
    refine scansAs_of_framed hhdr ?_ hfit
    intro p hp
    rcases List.mem_append.mp hp with hp | hp
    · exact hold p hp
    · exact hnew p hp

namespace KdbJournal

section Append

variable (env : InitEnv) (path : String) (opts : Options) (content : List UInt8)

/--
`init` gives no journal because of one of its first calls, writes the whole header,
or seeks to the end after the scan.
-/
def Seeks : Prop :=
  env.openFile ≠ .ok () ∨ env.fstat ≠ .ok () ∨
    (content = [] ∧ forall n, env.writeHeader = .ok n -> 8 <= n) ∨
    (8 < content.length ∧ opts.validateAndCountUponInit = true)

variable {env opts content}

theorem headed_bytes (n : Nat) : (headed n).bytes = header.take n := by
  rw [headed, OpenFile.write_opened, List.drop_nil, List.append_nil]

theorem headed_off (n : Nat) : (headed n).off = (headed n).bytes.length := by
  rw [headed_bytes, headed, OpenFile.write_off]
  simp [OpenFile.opened]

theorem init_opened {msg_count : Nat}
    (h : (init env path opts content).result = .journal msg_count) :
    env.openFile = .ok () ∧ env.fstat = .ok () := by
  rw [init] at h
  rcases hopen : env.openFile with e | ok
  · rw [hopen] at h
    cases h
  · rcases hfstat : env.fstat with e | ok
    · rw [hopen, hfstat] at h
      cases h
    · exact ⟨rfl, rfl⟩

theorem init_journal (hopts : opts.readOnly = false) {msg_count : Nat}
    (h : (init env path opts content).result = .journal msg_count) :
    (8 < content.length ∧
        (init env path opts content).file = (OpenFile.opened content).seekEnd) ∨
      (content = [] ∧ exists n, env.writeHeader = .ok n ∧
        (init env path opts content).file = headed n) ∨
      (content ≠ [] ∧ ¬ (8 < content.length ∧ opts.validateAndCountUponInit = true)) := by
  rcases init_opened path h with ⟨hopen, hfstat⟩
  rw [init, hopen, hfstat] at h ⊢
  simp only [hopts, Bool.false_eq_true, if_false] at h ⊢
  by_cases hempty : content.length = 0
  · rw [if_pos hempty] at h ⊢
    have hnil : content = [] := List.length_eq_zero_iff.mp hempty
    rcases hheader : env.writeHeader with e | n
    · rw [hheader] at h
      cases h
    · exact Or.inr (Or.inl ⟨hnil, n, rfl, rfl⟩)
  · rw [if_neg hempty] at h ⊢
    by_cases hscan : 8 < content.length ∧ opts.validateAndCountUponInit = true
    · refine Or.inl ⟨hscan.left, ?_⟩
      rw [validate, if_pos hscan] at h ⊢
      rcases hend : filterJnl env (OpenFile.opened content).bytes
        opts.maxReplayCount.toNat with ⟨n, m⟩ | err | _
      · rcases hseek : env.lseek with e | ok
        · rw [hend, hseek] at h
          cases h
        · rfl
      · rw [hend] at h
        cases h
      · rw [hend] at h
        cases h
    · refine Or.inr (Or.inr ⟨?_, hscan⟩)
      intro hnil
      rw [hnil] at hempty
      exact hempty rfl

theorem init_at_front (hopts : opts.readOnly = false) (hopen : env.openFile = .ok ())
    (hfstat : env.fstat = .ok ()) (hne : content ≠ [])
    (hscan : ¬ (8 < content.length ∧ opts.validateAndCountUponInit = true)) :
    init env path opts content = ⟨.journal 0, true, OpenFile.opened content⟩ := by
  have hempty : ¬ content.length = 0 := fun h => hne (List.length_eq_zero_iff.mp h)
  rw [init, hopen, hfstat]
  simp only [hopts, Bool.false_eq_true, if_false]
  rw [if_neg hempty, validate, if_neg hscan]

theorem init_headed (hopts : opts.readOnly = false) (hopen : env.openFile = .ok ())
    (hfstat : env.fstat = .ok ()) {n : Nat} (hheader : env.writeHeader = .ok n) :
    init env path opts [] = ⟨.journal 0, true, headed n⟩ := by
  rw [init, hopen, hfstat]
  simp only [hopts, Bool.false_eq_true, if_false, hheader]
  rfl

theorem exists_other_payload (b : UInt8) :
    exists p : Payload, p.WellFormed ∧ forall file, ¬ [b] <+: p.bytes ++ file := by
  have hhead : forall (c : UInt8) (xs file : List UInt8), c ≠ b ->
      ¬ [b] <+: (c :: xs) ++ file := by
    intro c xs file hne hpre
    rw [List.cons_append, List.cons_prefix_cons] at hpre
    exact hne hpre.left.symm
  by_cases hb : b = 255
  · refine ⟨.atom .byte 0, trivial, fun file => hhead _ _ file ?_⟩
    rw [hb]
    decide
  · refine ⟨.atom .bool 0, trivial, fun file => hhead _ _ file ?_⟩
    exact fun hbool => hb (hbool.symm.trans (by decide))

/--
Whatever is written to a journal that `init` gives is written behind what there is
exactly when the offset is not left at the front of a content, nor inside of a header
that was cut short.
-/
theorem init_appends (env : InitEnv) (path : String) (opts : Options)
    (hopts : opts.readOnly = false) (content : List UInt8) (old : List Payload)
    (hjnl : IsJournal content old) (hwf : forall p, p ∈ old -> p.WellFormed) :
    (forall msg_count, (init env path opts content).result = .journal msg_count ->
      forall new : List Payload, (forall p, p ∈ new -> p.WellFormed) ->
        Appended content old new
          ((init env path opts content).file.writeAll (new.map Payload.bytes)).bytes) <->
      Seeks env opts content := by
  constructor
  · intro happended
    by_contra hseeks
    rw [Seeks] at hseeks
    push Not at hseeks
    rcases hseeks with ⟨hopen, hfstat, hheader, hscan⟩
    have hscan' : ¬ (8 < content.length ∧ opts.validateAndCountUponInit = true) :=
      fun h => hscan h.left h.right
    by_cases hnil : content = []
    · rcases hheader hnil with ⟨n, hn, hshort⟩
      have hinit := init_headed path hopts hopen hfstat hn
      rw [hnil, hinit] at happended
      rcases (happended 0 rfl [] (by simp)).framed with ⟨hdr, hhdr, hfile⟩
      have hlen := congrArg List.length hfile
      rw [List.map_nil, OpenFile.writeAll, headed_bytes, List.length_append, hhdr,
        List.length_take] at hlen
      omega
    · have hinit := init_at_front path hopts hopen hfstat hnil hscan'
      rw [hinit] at happended
      obtain ⟨b, rest, rfl⟩ := List.exists_cons_of_ne_nil hnil
      rcases exists_other_payload b with ⟨p, hp, hother⟩
      have hkept := (happended 0 rfl [p] (by simp [hp])).kept
      rw [List.map_singleton, OpenFile.writeAll, OpenFile.writeAll,
        OpenFile.write_opened] at hkept
      exact hother _ ((List.prefix_append [b] rest).trans hkept)
  · intro hseeks msg_count hjournal new hnew
    rcases init_opened path hjournal with ⟨hopen, hfstat⟩
    have hends : (content = [] ∧ forall n, env.writeHeader = .ok n -> 8 <= n) ∨
        (8 < content.length ∧ opts.validateAndCountUponInit = true) := by
      rcases hseeks with hbad | hbad | hends
      · exact absurd hopen hbad
      · exact absurd hfstat hbad
      · exact hends
    rcases init_journal path hopts hjournal with ⟨hlen, hfile⟩ | ⟨hnil, n, hn, hfile⟩ |
        ⟨hne, hscan⟩
    · rcases hjnl with ⟨hnil, _⟩ | ⟨hdr, hhdr, hcontent⟩
      · rw [hnil] at hlen
        cases hlen
      · refine appended_of_eq hhdr (by rw [hcontent]) hwf hnew ?_
        rw [hfile, OpenFile.writeAll_at_end _ rfl, ← hcontent]
        rfl
    · rcases hjnl with ⟨_, hold⟩ | ⟨hdr, hhdr, hcontent⟩
      · have hfull : header.take n = header := by
          rcases hends with ⟨_, hwhole⟩ | ⟨hlen, _⟩
          · exact List.take_of_length_le (hwhole n hn)
          · rw [hnil] at hlen
            cases hlen
        have hheader : header.length = 8 := rfl
        refine appended_of_eq hheader ?_ hwf hnew ?_
        · rw [hnil]
          exact List.nil_prefix
        · rw [hfile, OpenFile.writeAll_at_end _ (headed_off n), headed_bytes, hfull, hold,
            List.map_nil, List.flatten_nil, List.append_nil]
      · have hlen := congrArg List.length hcontent
        rw [hnil, List.length_append, hhdr, List.length_nil] at hlen
        omega
    · rcases hends with ⟨hnil, _⟩ | hboth
      · exact absurd hnil hne
      · exact absurd hboth hscan

end Append

/-- A journal of one call that is validated. -/
theorem init_appends_validated :
    (forall msg_count,
      (init smooth "" ⟨false, true, 1⟩ (header ++ updCall.bytes)).result =
        .journal msg_count ->
      forall new : List Payload, (forall p, p ∈ new -> p.WellFormed) ->
        Appended (header ++ updCall.bytes) [updCall] new
          ((init smooth "" ⟨false, true, 1⟩ (header ++ updCall.bytes)).file.writeAll
            (new.map Payload.bytes)).bytes) <->
      Seeks smooth ⟨false, true, 1⟩ (header ++ updCall.bytes) :=
  init_appends smooth "" ⟨false, true, 1⟩ rfl (header ++ updCall.bytes) [updCall]
    (Or.inr ⟨header, rfl, by rw [List.map_singleton, List.flatten_singleton]⟩)
    (by
      intro p hp
      rw [List.mem_singleton.mp hp]
      simp [updCall, Payload.WellFormed, Payload.WellFormedAll])

/-- The first payload behind a lone header is written over the header. -/
theorem init_appends_header :
    ¬ forall (env : InitEnv) (path : String) (opts : Options) (content : List UInt8)
      (old : List Payload), opts.readOnly = false -> IsJournal content old ->
      (forall p, p ∈ old -> p.WellFormed) ->
      forall msg_count, (init env path opts content).result = .journal msg_count ->
      forall new : List Payload, (forall p, p ∈ new -> p.WellFormed) ->
        Appended content old new
          ((init env path opts content).file.writeAll (new.map Payload.bytes)).bytes := by
  intro hclaim
  have hwf : forall p, p ∈ [Payload.atom .byte 0] -> p.WellFormed := by
    intro p hp
    rw [List.mem_singleton.mp hp]
    trivial
  have happended := hclaim smooth "" ⟨false, true, 1⟩ header [] rfl
    (Or.inr ⟨header, rfl, rfl⟩) (by simp) 0 rfl [.atom .byte 0] hwf
  have hkept := List.isPrefixOf_iff_prefix.mpr happended.kept
  revert hkept
  decide +kernel

end KdbJournal

end MgKdb
