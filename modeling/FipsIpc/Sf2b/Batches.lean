import FipsIpc.Sf2b.Binary

/-!
Contract: how the text consumer of `programs/sf2b` depends on the cut of its
input into batches.

Owns: a list of parsed messages processed in one call of `ban_clients` or in
successive calls, all at one reading of the clock, and the lists for which the
cut does not matter.

Every call judges the age of all its messages by `context->timestamp`, the
timestamp of its first message.  The cut decides which message that is.

Does not own: which lines a read returns together.
-/

set_option autoImplicit false

namespace FipsIpc.Sf2b

open FipsIpc.IpHashtable

/-- The messages when all of them are processed at one reading of the clock. -/
def timed (clock : Int) (items : List (BanAnswers × Message)) :
    List (Int × BanAnswers × Message) :=
  items.map fun item => (clock, item)

/-- Successive calls of `ban_clients`. -/
def runBatches (config : Config) (clock : Int) (batches : List (List (BanAnswers × Message)))
    (server : Server) : Option Server :=
  batches.foldlM (fun server batch => banClients config (timed clock batch) server) server

/-- The message is older than the search window. -/
def Message.TooOld (config : Config) (clock : Int) (message : Message) : Prop :=
  clock - message.timestamp > config.findtime

instance (config : Config) (clock : Int) (message : Message) :
    Decidable (message.TooOld config clock) :=
  inferInstanceAs (Decidable (_ > _))

/-- Either all messages are too old or none is: each is judged as the first. -/
def JudgedAlike (config : Config) (clock : Int) (items : List (BanAnswers × Message)) : Prop :=
  ∀ first ∈ items.head?, ∀ item ∈ items,
    (item.2.TooOld config clock ↔ first.2.TooOld config clock)

/-! ### The loop and the timestamp it compares -/

section Loop

variable {config : Config} {clock batchTimestamp other : Int}

/-- The loop looks at the timestamp of the batch only to judge the age. -/
theorem banMessage_congr
    (alike : clock - batchTimestamp > config.findtime ↔ clock - other > config.findtime)
    (answers : BanAnswers) (message : Message) (server : Server) :
    banMessage config clock batchTimestamp answers message server =
      banMessage config clock other answers message server := by
  unfold banMessage
  simp only [alike]

theorem banLoop_cons (item : BanAnswers × Message) (rest : List (BanAnswers × Message))
    (server : Server) :
    banLoop config batchTimestamp (timed clock (item :: rest)) server =
      (banMessage config clock batchTimestamp item.1 item.2 server).bind
        (banLoop config batchTimestamp (timed clock rest)) := rfl

theorem banLoop_congr
    (alike : clock - batchTimestamp > config.findtime ↔ clock - other > config.findtime)
    (items : List (BanAnswers × Message)) (server : Server) :
    banLoop config batchTimestamp (timed clock items) server =
      banLoop config other (timed clock items) server := by
  induction items generalizing server with
  | nil => rfl
  | cons item rest inductionHypothesis =>
      rw [banLoop_cons, banLoop_cons, banMessage_congr alike, funext inductionHypothesis]

theorem banLoop_append (items later : List (BanAnswers × Message)) (server : Server) :
    banLoop config batchTimestamp (timed clock (items ++ later)) server =
      (banLoop config batchTimestamp (timed clock items) server).bind
        (banLoop config batchTimestamp (timed clock later)) := by
  induction items generalizing server with
  | nil => rfl
  | cons item rest inductionHypothesis =>
      rw [List.cons_append, banLoop_cons, banLoop_cons, Option.bind_assoc,
        funext inductionHypothesis]

end Loop

/-! ### Lists whose messages are judged alike -/

/-- A call whose messages are judged as a timestamp is the loop with that
timestamp. -/
theorem banClients_eq_banLoop {config : Config} {clock timestamp : Int}
    {items : List (BanAnswers × Message)}
    (alike : ∀ item ∈ items, (item.2.TooOld config clock ↔ clock - timestamp > config.findtime))
    (server : Server) :
    banClients config (timed clock items) server =
      banLoop config timestamp (timed clock items) server := by
  cases items with
  | nil => rfl
  | cons item rest => exact banLoop_congr (alike item List.mem_cons_self) (item :: rest) server

/-- Successive calls are then one loop over all their messages. -/
theorem runBatches_eq_banLoop {config : Config} {clock timestamp : Int}
    {batches : List (List (BanAnswers × Message))}
    (alike : ∀ item ∈ batches.flatten,
      (item.2.TooOld config clock ↔ clock - timestamp > config.findtime))
    (server : Server) :
    runBatches config clock batches server =
      banLoop config timestamp (timed clock batches.flatten) server := by
  induction batches generalizing server with
  | nil => rfl
  | cons batch rest inductionHypothesis =>
      rw [List.flatten_cons] at alike ⊢
      have head : banClients config (timed clock batch) server =
          banLoop config timestamp (timed clock batch) server :=
        banClients_eq_banLoop (fun item member => alike item (List.mem_append_left _ member)) server
      have tail : runBatches config clock rest =
          banLoop config timestamp (timed clock rest.flatten) :=
        funext (inductionHypothesis fun item member =>
          alike item (List.mem_append_right _ member))
      rw [banLoop_append, ← head, ← tail]
      rfl

theorem JudgedAlike.runBatches_eq {config : Config} {clock : Int}
    {batches : List (List (BanAnswers × Message))}
    (alike : JudgedAlike config clock batches.flatten) (server : Server) :
    runBatches config clock batches server =
      banClients config (timed clock batches.flatten) server := by
  cases items : batches.flatten with
  | nil =>
      have none : ∀ item ∈ batches.flatten,
          (item.2.TooOld config clock ↔ clock - 0 > config.findtime) := by
        simp [items]
      rw [runBatches_eq_banLoop none, items]
      rfl
  | cons first rest =>
      have judged : ∀ item ∈ batches.flatten,
          (item.2.TooOld config clock ↔ clock - first.2.timestamp > config.findtime) :=
        alike first (by rw [items]; rfl)
      rw [runBatches_eq_banLoop judged, items]
      rfl

/-! ### The total of old messages -/

section Totals

variable (config : Config) (clock : Int) {server : Server} {bins : BitVec 16 → List Nat}
  {free : List Nat}

/-- The loop counts all of its messages as old or none. -/
theorem banLoop_tooOld (batchTimestamp : Int) (items : List (BanAnswers × Message))
    (shape : Shape server.htable bins free) :
    ∃ last, banLoop config batchTimestamp (timed clock items) server = some last ∧
      last.tooOld = server.tooOld +
        if clock - batchTimestamp > config.findtime then items.length else 0 := by
  induction items generalizing server bins free with
  | nil => exact ⟨server, rfl, by simp⟩
  | cons item rest inductionHypothesis =>
      obtain ⟨next, nextBins, nextFree, taken, kept, counted⟩ :=
        banMessage_returns config shape clock batchTimestamp item.1 item.2
      obtain ⟨last, later, total⟩ := inductionHypothesis kept
      refine ⟨last, ?_, ?_⟩
      · rw [banLoop_cons, taken]
        exact later
      · rw [total, counted, List.length_cons]
        split <;> omega

/-- One message in a call is judged by its own timestamp. -/
theorem runBatches_singles_tooOld (items : List (BanAnswers × Message))
    (shape : Shape server.htable bins free) :
    ∃ last, runBatches config clock (items.map fun item => [item]) server = some last ∧
      last.tooOld = server.tooOld + items.countP fun item => item.2.TooOld config clock := by
  induction items generalizing server bins free with
  | nil => exact ⟨server, rfl, rfl⟩
  | cons item rest inductionHypothesis =>
      obtain ⟨next, nextBins, nextFree, taken, kept, counted⟩ :=
        banMessage_returns config shape clock item.2.timestamp item.1 item.2
      obtain ⟨last, later, total⟩ := inductionHypothesis kept
      have call : banClients config (timed clock [item]) server = some next := by
        change banLoop config item.2.timestamp (timed clock [item]) server = some next
        rw [banLoop_cons, taken]
        rfl
      refine ⟨last, ?_, ?_⟩
      · rw [runBatches, List.map_cons, List.foldlM_cons, call]
        exact later
      · have judged : (if clock - item.2.timestamp > config.findtime then 1 else 0) =
            if decide (item.2.TooOld config clock) = true then 1 else 0 :=
          if_congr decide_eq_true_iff.symm rfl rfl
        rw [total, counted, List.countP_cons]
        omega

end Totals

/-- A total that is everything or nothing means that all are judged alike. -/
theorem judgedAlike_of_countP {config : Config} {clock : Int} {first : BanAnswers × Message}
    {rest : List (BanAnswers × Message)}
    (total : (first :: rest).countP (fun item => item.2.TooOld config clock) =
      if clock - first.2.timestamp > config.findtime then (first :: rest).length else 0) :
    JudgedAlike config clock (first :: rest) := by
  intro head isHead item member
  cases isHead
  by_cases old : clock - first.2.timestamp > config.findtime
  · rw [if_pos old, List.countP_eq_length] at total
    exact iff_of_true (of_decide_eq_true (total item member)) old
  · rw [if_neg old, List.countP_eq_zero] at total
    exact iff_of_false (fun itemOld => total item member (decide_eq_true itemOld)) old

/-- One call of `ban_clients` and every cut of its messages into successive calls
leave the same server if and only if each message is judged as the first. -/
theorem batching_agrees_iff (config : Config) (clock : Int) (items : List (BanAnswers × Message))
    {server : Server} {bins : BitVec 16 → List Nat} {free : List Nat}
    (shape : Shape server.htable bins free) :
    ∃ last, banClients config (timed clock items) server = some last ∧
      ((∀ batches, batches.flatten = items → runBatches config clock batches server = some last) ↔
        JudgedAlike config clock items) := by
  cases items with
  | nil =>
      refine ⟨server, rfl, fun _ first isFirst => ?_, fun alike batches cut => ?_⟩
      · cases isFirst
      · rw [← cut] at alike
        rw [alike.runBatches_eq, cut]
        rfl
  | cons first rest =>
      obtain ⟨last, together, total⟩ :=
        banLoop_tooOld config clock first.2.timestamp (first :: rest) shape
      refine ⟨last, together, fun agree => ?_, fun alike batches cut => ?_⟩
      · obtain ⟨single, apart, counted⟩ :=
          runBatches_singles_tooOld config clock (first :: rest) shape
        have cut : ((first :: rest).map fun item => [item]).flatten = first :: rest :=
          List.flatMap_singleton' _
        have same : last = single := Option.some.inj ((agree _ cut).symm.trans apart)
        apply judgedAlike_of_countP
        rw [same] at total
        omega
      · rw [← cut] at alike
        rw [alike.runBatches_eq, cut]
        exact together

/-- Two messages of 192.168.1.1, the second more than the search window old at
the reading 20. -/
def freshThenOld : List (BanAnswers × Message) :=
  [(allSucceed, ⟨afInet, 0x0101A8C0, 20⟩), (allSucceed, ⟨afInet, 0x0101A8C0, 5⟩)]

def freshThenFresh : List (BanAnswers × Message) :=
  [(allSucceed, ⟨afInet, 0x0101A8C0, 20⟩), (allSucceed, ⟨afInet, 0x0101A8C0, 19⟩)]

theorem batching_agrees_fresh :
    runBatches twoMessages 20 [[freshThenFresh[0]], [freshThenFresh[1]]]
        (.started twoMessages fun _ => .zero) =
      banClients twoMessages (timed 20 freshThenFresh) (.started twoMessages fun _ => .zero) := by
  have shape : Shape (Server.started twoMessages fun _ => .zero).htable (fun _ => [])
      (Table.linked 0 nbins ++ []) := Shape.init _ _
  obtain ⟨last, together, agree⟩ := batching_agrees_iff twoMessages 20 freshThenFresh shape
  have alike : JudgedAlike twoMessages 20 freshThenFresh := by
    intro first isFirst
    cases isFirst
    decide
  rw [together]
  exact agree.mpr alike _ rfl

/-- In one call the second message bans the client, alone it is disregarded. -/
theorem batching_differs_old :
    ∃ together apart,
      banClients twoMessages (timed 20 freshThenOld) (.started twoMessages fun _ => .zero) =
        some together ∧
      runBatches twoMessages 20 [[freshThenOld[0]], [freshThenOld[1]]]
        (.started twoMessages fun _ => .zero) = some apart ∧
      together.banCount = 1 ∧ together.tooOld = 0 ∧ together.banned = [.v4 0x0101A8C0] ∧
      apart.banCount = 0 ∧ apart.tooOld = 1 ∧ apart.banned = [] := by
  rw [Server.started, Table.ipHashtableInit_eq]
  exact ⟨_, _, (Option.some_get (by decide +kernel)).symm,
    (Option.some_get (by decide +kernel)).symm, by decide +kernel⟩

end FipsIpc.Sf2b
