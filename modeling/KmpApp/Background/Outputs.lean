import KmpApp.Background.Store
import KmpApp.Transition.Interleave

/-!
# Outputs — who writes what, and how often

Every effect of a coroutine on the world is an `Output`.  This file follows the outputs of each
coroutine through any interleaving:

* `ChatScript` — apart from the messages it receives, the coroutine of a `ListViewModel` writes the
  lines of its script in order, and stops anywhere: a line when it starts, then what the request
  flow does;
* `RefreshScript` — a refresh saves at most once, and then it is over;
* `exists_outputs` — the world is what the interleaved outputs of all coroutines make of it.

Counting over the parts of the log gives the two results: `saves_le_refreshes` and `chat_accounting`.
-/

namespace KmpApp
namespace Background

open Coroutines Data Transition

/-! ## Outputs -/

inductive Output
  | launched (launcher : Launcher)
  | log (message : String)
  | message (it : ChatMessage)
  | stackTrace (e : Exception)
  | saved (newObjects : List MuseumObject)
  | sent (message : ChatMessage)
  deriving DecidableEq, Repr

/-- What a signal makes a coroutine with this body write. -/
def output : Program Unit → Signal → List Output
  | .await (.saveObjects l) _, .saved _ => [.saved l]
  | .await (.printStackTrace e) _, .printed => [.stackTrace e]
  | .await (.logI message) _, .logged => [.log message]
  | .await (.chatStream (.log message :: _)) _, .requestPulled => [.log message]
  | .await (.chatStream (.emit message :: _)) _, .requestPulled => [.sent message]
  | .await (.chatStream _) _, .messageReceived it => [.message it]
  | _, _ => []

def World.write (world : World) : Output → World
  | .launched _ => world
  | .log message => { world with log := world.log ++ [.text message] }
  | .message it => { world with log := world.log ++ [.message it] }
  | .stackTrace e => { world with stackTraces := world.stackTraces ++ [e] }
  | .saved l => { world with storage := world.storage.saveObjects l }
  | .sent message => { world with sent := world.sent ++ [message] }

/-- The effect of a signal on the world is what it makes the coroutine write. -/
theorem World.observe_eq (world : World) (body : Program Unit) (sig : Signal) :
    world.observe body sig = (output body sig).foldl World.write world := by
  cases body with
  | done a =>
      rfl
  | raise e =>
      rfl
  | await op k =>
      cases op with
      | chatStream request =>
          cases request with
          | nil =>
              cases sig <;> rfl
          | cons first rest =>
              cases first <;> cases sig <;> rfl
      | _ =>
          cases sig <;> rfl

def Output.isMessage : Output → Bool
  | .message _ => true
  | _ => false

def Output.isSaved : Output → Bool
  | .saved _ => true
  | _ => false

/-! ## The script of the chat coroutine -/

/-- What the request flow writes when one of its statements runs. -/
def flowOutput : FlowStep → Output
  | .log message => .log message
  | .emit message => .sent message

def chatScript : List Output :=
  .log "viewModelScope.launch" :: ListViewModel.request.map flowOutput

/-- How far a chat coroutine with this body has come in its script. -/
inductive ChatScript : List Output → Program Unit → Prop where
  | dispatching : ChatScript [] ListViewModel.init
  | logging : ChatScript [] ListViewModel.listen
  | streaming {outs : List Output} {rest : List FlowStep} :
      outs ++ rest.map flowOutput = chatScript →
      ChatScript outs (ListViewModel.collectChat rest)
  | ended {outs : List Output} {body : Program Unit} :
      outs <+: chatScript → (∀ sig, resume body sig = none) → ChatScript outs body

theorem ChatScript.le_script {outs : List Output} {body : Program Unit}
    (h : ChatScript outs body) : outs <+: chatScript := by
  cases h with
  | dispatching =>
      exact List.nil_prefix
  | logging =>
      exact List.nil_prefix
  | streaming hscript =>
      rw [← hscript]
      exact List.prefix_append _ _
  | ended hle _ =>
      exact hle

theorem resume_cancelled_raise (sig : Signal) :
    resume (.raise (.exception .cancellationException)) sig = none := by
  cases sig <;> rfl

/-- One signal to a chat coroutine; the messages it receives are not part of its script. -/
theorem ChatScript.step {outs : List Output} {body body' : Program Unit} {sig : Signal}
    (h : ChatScript outs body) (hresume : resume body sig = some body') :
    ChatScript (outs ++ (output body sig).filter fun o => !o.isMessage) body' := by
  cases h with
  | dispatching =>
      cases sig with
      | dispatched =>
          have hbody : ListViewModel.listen = body' := Option.some.inj hresume
          subst hbody
          exact ChatScript.logging
      | cancelled =>
          have hbody : .raise (.exception .cancellationException) = body' :=
            Option.some.inj hresume
          subst hbody
          exact ChatScript.ended List.nil_prefix resume_cancelled_raise
      | _ =>
          cases hresume
  | logging =>
      cases sig with
      | logged =>
          have hbody : ListViewModel.collectChat ListViewModel.request = body' :=
            Option.some.inj hresume
          subst hbody
          exact ChatScript.streaming rfl
      | _ =>
          cases hresume
  | streaming hscript =>
      rename_i rest
      have hle : outs <+: chatScript := by
        rw [← hscript]
        exact List.prefix_append _ _
      cases sig with
      | requestPulled =>
          cases rest with
          | nil =>
              cases hresume
          | cons first rest =>
              have hbody : ListViewModel.collectChat rest = body' :=
                Option.some.inj ((resume_requestPulled first rest).symm.trans hresume)
              subst hbody
              -- The statement that has just run moves from the rest to what was written.
              refine ChatScript.streaming ?_
              rw [← hscript]
              cases first <;>
                simp [output, ListViewModel.collectChat, Suspend.perform, flowOutput,
                  Output.isMessage]
      | messageReceived it =>
          have hbody : ListViewModel.collectChat rest = body' := by
            cases rest <;> exact Option.some.inj hresume
          subst hbody
          refine ChatScript.streaming ?_
          rw [← hscript]
          cases rest <;>
            simp [output, ListViewModel.collectChat, Suspend.perform, Output.isMessage]
      | streamEnds code =>
          have hbody : streamEnded code = body' := by
            cases rest <;> cases code <;> exact Option.some.inj hresume
          subst hbody
          refine ChatScript.ended ?_ (resume_streamEnded code)
          cases rest with
          | nil =>
              simpa [output, ListViewModel.collectChat, Suspend.perform] using hle
          | cons first rest =>
              cases first <;> simpa [output, ListViewModel.collectChat, Suspend.perform] using hle
      | cancelled =>
          have hbody : .raise (.exception .cancellationException) = body' := by
            cases rest <;> exact Option.some.inj hresume
          subst hbody
          refine ChatScript.ended ?_ resume_cancelled_raise
          cases rest with
          | nil =>
              simpa [output, ListViewModel.collectChat, Suspend.perform] using hle
          | cons first rest =>
              cases first <;> simpa [output, ListViewModel.collectChat, Suspend.perform] using hle
      | _ =>
          cases rest <;> cases hresume
  | ended _ hover =>
      rw [hover] at hresume
      cases hresume

/-! ## The outputs of a refresh -/

def Output.ofRefresh : Output → Bool
  | .stackTrace _ => true
  | .saved _ => true
  | _ => false

/-- A refresh reports and saves, nothing else; and when it has saved, it is over. -/
structure RefreshScript (outs : List Output) (body : Program Unit) : Prop where
  kinds : ∀ o ∈ outs, o.ofRefresh = true
  saved : outs.countP Output.isSaved = 0 ∨ (outs.countP Output.isSaved = 1 ∧ body = .done ())

/-- What one signal makes a refresh write. -/
theorem RefreshPhase.output_cases {rs : List FetchResult} {body body' : Program Unit} {sig : Signal}
    (h : RefreshPhase rs body) (hresume : resume body sig = some body') :
    body ≠ .done () ∧
      (output body sig = [] ∨ (∃ e, output body sig = [.stackTrace e]) ∨
        ∃ l, output body sig = [.saved l] ∧ body' = .done ()) := by
  cases h with
  | dispatching =>
      refine ⟨by simp [MuseumRepository.initializeRepository, launch, Suspend.perform, bind,
        Suspend.bind], Or.inl ?_⟩
      cases sig <;> rfl
  | fetching =>
      refine ⟨?_, Or.inl ?_⟩
      · intro hdone
        cases hdone
      · cases sig <;> rfl
  | reporting he =>
      rename_i e
      refine ⟨?_, ?_⟩
      · intro hdone
        cases hdone
      · cases sig with
        | printed =>
            exact Or.inr (Or.inl ⟨e, rfl⟩)
        | _ =>
            cases hresume
  | saving hr =>
      rename_i r newObjects
      refine ⟨?_, ?_⟩
      · intro hdone
        cases hdone
      · cases sig with
        | saved l =>
            refine Or.inr (Or.inr ⟨newObjects, rfl, ?_⟩)
            have hresume' : (if newObjects = l then some (.done ()) else none) = some body' :=
              hresume
            by_cases hl : newObjects = l
            · simpa [hl] using hresume'.symm
            · simp [hl] at hresume'
        | _ =>
            cases hresume
  | finished _ =>
      cases sig <;> cases hresume
  | cancelledDispatch =>
      cases sig <;> cases hresume
  | cancelledFetch =>
      cases sig <;> cases hresume

theorem RefreshScript.step {outs : List Output} {rs : List FetchResult} {body body' : Program Unit}
    {sig : Signal} (h : RefreshScript outs body) (hphase : RefreshPhase rs body)
    (hresume : resume body sig = some body') :
    RefreshScript (outs ++ output body sig) body' := by
  rcases hphase.output_cases hresume with ⟨hne, hout⟩
  -- A body that can still be signalled has not saved yet.
  have hzero : outs.countP Output.isSaved = 0 := by
    rcases h.saved with hzero | ⟨_, hdone⟩
    · exact hzero
    · exact absurd hdone hne
  rcases hout with hnil | ⟨e, htrace⟩ | ⟨l, hsaved, hdone⟩
  · rw [hnil, List.append_nil]
    exact ⟨h.kinds, Or.inl hzero⟩
  · rw [htrace]
    refine ⟨?_, Or.inl ?_⟩
    · intro o ho
      rcases List.mem_append.1 ho with hold | hnew
      · exact h.kinds o hold
      · rw [List.mem_singleton.1 hnew]
        rfl
    · simp [List.countP_append, hzero, Output.isSaved]
  · rw [hsaved]
    refine ⟨?_, Or.inr ⟨?_, hdone⟩⟩
    · intro o ho
      rcases List.mem_append.1 ho with hold | hnew
      · exact h.kinds o hold
      · rw [List.mem_singleton.1 hnew]
        rfl
    · simp [List.countP_append, hzero, Output.isSaved]

/-! ## All coroutines -/

/-- The outputs of one coroutine, from its launch on. -/
inductive Script : Launcher → List Output → Program Unit → Prop where
  | chat {outs : List Output} {body : Program Unit} :
      ChatScript (outs.filter fun o => !o.isMessage) body →
      Script .viewModelScope (.launched .viewModelScope :: outs) body
  | refresh {launcher : Launcher} {outs : List Output} {body : Program Unit} :
      launcher ≠ .viewModelScope → RefreshScript outs body →
      Script launcher (.launched launcher :: outs) body

theorem Script.start (launcher : Launcher) : Script launcher [.launched launcher] launcher.body := by
  cases launcher with
  | viewModelScope =>
      exact Script.chat ChatScript.dispatching
  | repositoryScope =>
      exact Script.refresh (by simp) ⟨by simp, Or.inl rfl⟩
  | caller =>
      exact Script.refresh (by simp) ⟨by simp, Or.inl rfl⟩

variable {es : List Event} {tr : List State} {s s' : State}

theorem Script.step (hrun : machine.Run es tr s) {i : ℕ} {c : Coroutine} {body' : Program Unit}
    {sig : Signal} {outs : List Output} (hc : s.coroutines[i]? = some c)
    (h : Script c.launcher outs c.body) (hresume : resume c.body sig = some body') :
    Script c.launcher (outs ++ output c.body sig) body' := by
  generalize hl : c.launcher = launcher at h
  cases h with
  | chat hchat =>
      have hnext := hchat.step hresume
      rw [← List.filter_append] at hnext
      exact Script.chat hnext
  | refresh hne hrefresh =>
      have hphase := refreshPhase hrun hc (by rw [hl]; exact hne)
      exact Script.refresh hne (hrefresh.step hphase hresume)

/-! ## The log of all outputs -/

def Event.launch? : Event → Option Launcher
  | .launch launcher => some launcher
  | .signal _ _ => none

def Output.launch? : Output → Option Launcher
  | .launched launcher => some launcher
  | _ => none

def Output.saved? : Output → Option (List MuseumObject)
  | .saved l => some l
  | _ => none

/-- The message that an event hands to a `collectLatest` block. -/
def Event.received? : Event → Option ChatMessage
  | .signal _ (.messageReceived it) => some it
  | _ => none

def Output.message? : Output → Option ChatMessage
  | .message it => some it
  | _ => none

/-- A log of all outputs that explains the state: who wrote what, in which order. -/
structure Explains (es : List Event) (s : State) (log : List (ℕ × Output)) : Prop where
  world : s.world = (log.map Prod.snd).foldl World.write machine.init.world
  scripts : ∀ i c, s.coroutines[i]? = some c → Script c.launcher (partOf i log) c.body
  others : ∀ i, s.coroutines.length ≤ i → partOf i log = []
  launches : (log.map Prod.snd).filterMap Output.launch? = es.filterMap Event.launch?
  saves : (log.map Prod.snd).filterMap Output.saved? = savedLists es
  messages : (log.map Prod.snd).filterMap Output.message? = es.filterMap Event.received?

theorem output_launch? (body : Program Unit) (sig : Signal) :
    (output body sig).filterMap Output.launch? = [] := by
  cases body with
  | done a =>
      rfl
  | raise e =>
      rfl
  | await op k =>
      cases op with
      | chatStream request =>
          cases request with
          | nil =>
              cases sig <;> rfl
          | cons first rest =>
              cases first <;> cases sig <;> rfl
      | _ =>
          cases sig <;> rfl

/-- A coroutine that takes a signal writes the list that the signal saves, if it saves one. -/
theorem output_saved? {body body' : Program Unit} {sig : Signal} (i : ℕ)
    (h : resume body sig = some body') :
    (output body sig).filterMap Output.saved? = savedLists [.signal i sig] := by
  cases body with
  | done a =>
      cases sig <;> cases h
  | raise e =>
      cases sig <;> cases h
  | await op k =>
      cases op with
      | saveObjects l =>
          cases sig with
          | saved l' =>
              rcases resume_saved h with ⟨k', hk⟩
              cases hk
              rfl
          | _ =>
              cases h
      | chatStream request =>
          cases request with
          | nil =>
              cases sig <;> cases h <;> rfl
          | cons first rest =>
              cases first <;> cases sig <;> cases h <;> rfl
      | _ =>
          cases sig <;> cases h <;> rfl

theorem output_message? {body body' : Program Unit} {sig : Signal} (i : ℕ)
    (h : resume body sig = some body') :
    (output body sig).filterMap Output.message? = [Event.signal i sig].filterMap Event.received? := by
  cases body with
  | done a =>
      cases sig <;> cases h
  | raise e =>
      cases sig <;> cases h
  | await op k =>
      cases op with
      | chatStream request =>
          cases request with
          | nil =>
              cases sig <;> cases h <;> rfl
          | cons first rest =>
              cases first <;> cases sig <;> cases h <;> rfl
      | saveObjects l =>
          cases sig <;> first | rfl | cases h
      | _ =>
          cases sig <;> cases h <;> rfl

theorem exists_outputs (h : machine.Run es tr s) : ∃ log, Explains es s log := by
  induction h with
  | init =>
      refine ⟨[], rfl, ?_, by simp, rfl, rfl, rfl⟩
      intro i c hc
      simp [machine] at hc
  | step hrun hstep ih =>
      rename_i es tr s s' e
      rcases ih with ⟨log, hlog⟩
      cases e with
      | launch launcher =>
          have hs' := step_launch hstep
          subst hs'
          refine ⟨log ++ [(s.coroutines.length, .launched launcher)], ?_, ?_, ?_, ?_, ?_, ?_⟩
          · simp [hlog.world, World.write]
          · intro i c hc
            rw [partOf_append]
            rcases getElem?_concat_cases hc with ⟨rfl, rfl⟩ | hold
            · rw [hlog.others _ le_rfl]
              simpa [partOf] using Script.start launcher
            · have hlt := (List.getElem?_eq_some_iff.1 hold).1
              have hne : s.coroutines.length ≠ i := by
                omega
              simpa [partOf, hne] using hlog.scripts i c hold
          · intro i hi
            simp only [List.length_append, List.length_singleton] at hi
            have hne : s.coroutines.length ≠ i := by
              omega
            have hnil := hlog.others i (Nat.le_of_succ_le hi)
            simp only [partOf] at hnil
            simp [partOf, hnil, hne]
          · have hl := hlog.launches
            simp only [List.filterMap_append, List.map_append, hl]
            rfl
          · have hs := hlog.saves
            rw [savedLists_concat (by simp), ← hs]
            simp [Output.saved?]
          · have hm := hlog.messages
            simp only [List.filterMap_append, List.map_append, hm]
            rfl
      | signal i sig =>
          rcases step_signal hstep with ⟨c, body, hc, hbody, rfl⟩
          have hlt := (List.getElem?_eq_some_iff.1 hc).1
          refine ⟨log ++ (output c.body sig).map fun o => (i, o), ?_, ?_, ?_, ?_, ?_, ?_⟩
          · simp [World.observe_eq, hlog.world, Function.comp_def]
          · intro j d hd
            rw [partOf_append]
            rcases getElem?_set_cases hd with ⟨rfl, rfl⟩ | ⟨hne, hold⟩
            · rw [partOf_map_self]
              exact (hlog.scripts j c hc).step hrun hc hbody
            · rw [partOf_map_ne (Ne.symm hne), List.append_nil]
              exact hlog.scripts j d hold
          · intro j hj
            simp only [List.length_set] at hj
            have hne : i ≠ j := by
              omega
            rw [partOf_append, partOf_map_ne hne, hlog.others j hj, List.append_nil]
          · have hl := hlog.launches
            simp only [List.filterMap_append, List.map_append, hl, List.map_map,
              Function.comp_def, List.map_id', output_launch?]
            rfl
          · have hs := hlog.saves
            have happ : savedLists (es ++ [.signal i sig]) =
                savedLists es ++ savedLists [.signal i sig] := List.filterMap_append
            rw [happ, ← hs, ← output_saved? i hbody]
            simp [Function.comp_def]
          · rw [List.filterMap_append, ← hlog.messages, ← output_message? i hbody]
            simp [Function.comp_def]

/-- What holds of the script of every coroutine holds of every part of the log. -/
theorem Explains.part_cases {log : List (ℕ × Output)} (h : Explains es s log) (i : ℕ) :
    partOf i log = [] ∨ ∃ c : Coroutine, Script c.launcher (partOf i log) c.body := by
  cases hc : s.coroutines[i]? with
  | none =>
      exact Or.inl (h.others i (List.getElem?_eq_none_iff.1 hc))
  | some c =>
      exact Or.inr ⟨c, h.scripts i c hc⟩

/-! ## Saves -/

/-- `refresh()` was called, or a coroutine that calls it was launched. -/
def Launcher.isRefresh : Launcher → Bool
  | .viewModelScope => false
  | _ => true

def Output.isRefreshLaunch : Output → Bool
  | .launched launcher => launcher.isRefresh
  | _ => false

theorem Script.saved_le {launcher : Launcher} {outs : List Output} {body : Program Unit}
    (h : Script launcher outs body) :
    outs.countP Output.isSaved ≤ outs.countP Output.isRefreshLaunch := by
  cases h with
  | chat hchat =>
      rename_i outs
      -- The chat script has no save in it.
      have hnone : ∀ o ∈ outs, o.isSaved = false := by
        intro o ho
        cases o with
        | saved l =>
            have hmem : Output.saved l ∈ outs.filter fun o => !o.isMessage :=
              List.mem_filter.2 ⟨ho, rfl⟩
            have hscript := hchat.le_script.subset hmem
            simp [chatScript, ListViewModel.request, flowOutput] at hscript
        | _ =>
            rfl
      have hzero : outs.countP Output.isSaved = 0 := by
        rw [List.countP_eq_zero]
        intro o ho
        simp [hnone o ho]
      simp [Output.isSaved, hzero]
  | refresh hne hrefresh =>
      rename_i outs
      have hone : outs.countP Output.isSaved ≤ 1 := by
        rcases hrefresh.saved with hzero | ⟨hone, _⟩
        · omega
        · omega
      have hlaunch : Output.isRefreshLaunch (.launched launcher) = true := by
        cases launcher with
        | viewModelScope =>
            exact absurd rfl hne
        | _ =>
            rfl
      rw [List.countP_cons, List.countP_cons, hlaunch]
      simp only [Output.isSaved, Bool.false_eq_true, if_false, if_true]
      omega

/-- **A refresh saves at most once.** In every run the lists passed to `saveObjects` are at most as
many as the refreshes that were started. -/
theorem saves_le_refreshes (h : machine.Run es tr s) :
    (savedLists es).length ≤ (es.filterMap Event.launch?).countP Launcher.isRefresh := by
  rcases exists_outputs h with ⟨log, hlog⟩
  have hparts : ∀ i, (partOf i log).countP Output.isSaved ≤
      (partOf i log).countP Output.isRefreshLaunch := by
    intro i
    rcases hlog.part_cases i with hnil | ⟨c, hscript⟩
    · simp [hnil]
    · exact hscript.saved_le
  have hsaved : (savedLists es).length = log.countP fun x => x.2.isSaved := by
    rw [← hlog.saves, List.length_filterMap_eq_countP, List.countP_map]
    refine List.countP_congr fun x _ => ?_
    rcases x with ⟨j, o⟩
    cases o <;> simp [Output.saved?, Output.isSaved]
  have hlaunched : (es.filterMap Event.launch?).countP Launcher.isRefresh =
      log.countP fun x => x.2.isRefreshLaunch := by
    rw [← hlog.launches, List.countP_filterMap, List.countP_map]
    refine List.countP_congr fun x _ => ?_
    rcases x with ⟨j, o⟩
    cases o <;> simp [Output.launch?, Output.isRefreshLaunch]
  rw [hsaved, hlaunched]
  exact countP_le_of_parts hparts

/-! ## Chat traffic -/

/-- The one message that the request flow emits. -/
def hello : ChatMessage :=
  { userId := "ios", content := "Hello", timestamp := "" }

/-- A prefix of the chat script has at most one of each of its lines, and an earlier line whenever
it has a later one. -/
theorem counts_of_le_chatScript {outs : List Output} (h : outs <+: chatScript) :
    outs.count (.sent hello) ≤ outs.count (.log "emit chat message") ∧
      outs.count (.log "emit chat message") ≤ outs.count (.log "viewModelScope.launch") ∧
      outs.count (.log "viewModelScope.launch") ≤ 1 ∧
      ∀ m, .sent m ∈ outs → m = hello := by
  have hmem : outs ∈ chatScript.inits := (List.mem_inits outs chatScript).2 h
  have hinits : chatScript.inits =
      [ []
      , [.log "viewModelScope.launch"]
      , [.log "viewModelScope.launch", .log "emit chat message"]
      , [.log "viewModelScope.launch", .log "emit chat message", .sent hello] ] := by
    decide
  rw [hinits] at hmem
  simp only [List.mem_cons, List.not_mem_nil, or_false] at hmem
  rcases hmem with rfl | rfl | rfl | rfl
  · simp
  · simp
  · simp
  · refine ⟨by decide, by decide, by decide, ?_⟩
    intro m hm
    simpa using hm

/-- Received messages are no part of the script. -/
theorem count_filter_message {o : Output} (ho : o.isMessage = false) (outs : List Output) :
    (outs.filter fun o => !o.isMessage).count o = outs.count o :=
  List.count_filter (by simp [ho])

theorem Script.chat_counts {launcher : Launcher} {outs : List Output} {body : Program Unit}
    (h : Script launcher outs body) :
    outs.count (.sent hello) ≤ outs.count (.log "emit chat message") ∧
      outs.count (.log "emit chat message") ≤ outs.count (.log "viewModelScope.launch") ∧
      outs.count (.log "viewModelScope.launch") ≤ outs.count (.launched .viewModelScope) ∧
      ∀ m, .sent m ∈ outs → m = hello := by
  cases h with
  | chat hchat =>
      rename_i outs
      rcases counts_of_le_chatScript hchat.le_script with ⟨hsent, hemit, hlaunch, hhello⟩
      rw [count_filter_message rfl, count_filter_message rfl] at hsent hemit
      rw [count_filter_message rfl] at hlaunch
      refine ⟨?_, ?_, ?_, ?_⟩
      · simpa [List.count_cons] using hsent
      · simpa [List.count_cons] using hemit
      · rw [List.count_cons_of_ne (by simp), List.count_cons_self]
        omega
      · intro m hm
        refine hhello m (List.mem_filter.2 ⟨?_, rfl⟩)
        simpa using hm
  | refresh hne hrefresh =>
      rename_i outs
      -- A refresh neither logs nor sends.
      have hzero : ∀ o : Output, o.ofRefresh = false → o ∉ outs := by
        intro o ho hmem
        rw [hrefresh.kinds o hmem] at ho
        cases ho
      have hcount : ∀ o : Output, o.ofRefresh = false → o.launch? = none →
          (Output.launched launcher :: outs).count o = 0 := by
        intro o ho hl
        rw [List.count_cons_of_ne, List.count_eq_zero.2 (hzero o ho)]
        intro heq
        rw [← heq] at hl
        cases hl
      rw [hcount _ rfl rfl, hcount _ rfl rfl, hcount _ rfl rfl]
      refine ⟨le_rfl, le_rfl, Nat.zero_le _, ?_⟩
      intro m hm
      rcases List.mem_cons.1 hm with heq | hmem
      · cases heq
      · exact absurd hmem (hzero _ rfl)

/-! ## What the world shows of the outputs -/

def Output.sent? : Output → Option ChatMessage
  | .sent greeting => some greeting
  | _ => none

def Output.line? : Output → Option LogLine
  | .log text => some (.text text)
  | .message it => some (.message it)
  | _ => none

def LogLine.message? : LogLine → Option ChatMessage
  | .message it => some it
  | .text _ => none

theorem foldl_write (outs : List Output) (world : World) :
    (outs.foldl World.write world).sent = world.sent ++ outs.filterMap Output.sent? ∧
      (outs.foldl World.write world).log = world.log ++ outs.filterMap Output.line? := by
  induction outs generalizing world with
  | nil =>
      simp
  | cons o outs ih =>
      rcases ih (world.write o) with ⟨hsent, hlog⟩
      rw [List.foldl_cons, hsent, hlog]
      cases o <;> simp [World.write, List.filterMap_cons, Output.sent?, Output.line?]

theorem count_text (message : String) (outs : List Output) :
    (outs.filterMap Output.line?).count (.text message) = outs.count (.log message) := by
  induction outs with
  | nil =>
      rfl
  | cons o outs ih =>
      cases o with
      | log message' =>
          by_cases hm : message' = message
          · simp [Output.line?, hm, ih]
          · simp [Output.line?, hm, ih, List.count_cons_of_ne]
      | _ =>
          simpa [List.filterMap_cons, Output.line?] using ih

theorem length_sent {outs : List Output} (h : ∀ m, .sent m ∈ outs → m = hello) :
    (outs.filterMap Output.sent?).length = outs.count (.sent hello) := by
  induction outs with
  | nil =>
      rfl
  | cons o outs ih =>
      have hrest := ih fun m hm => h m (List.mem_cons_of_mem _ hm)
      cases o with
      | sent m =>
          have hm := h m (by simp)
          simp [Output.sent?, hm, hrest]
      | _ =>
          simpa [List.filterMap_cons, Output.sent?] using hrest

/-- **Chat traffic.** In every interleaving the app sends nothing but greetings, at most one for each
`"emit chat message"` line, of which there is at most one for each `"viewModelScope.launch"` line,
of which there is at most one for each coroutine that a list view model launched; and the `Message`
lines are exactly the messages received, in the order of their arrival. -/
theorem chat_accounting (h : machine.Run es tr s) :
    (∀ m ∈ s.world.sent, m = hello) ∧
    s.world.sent.length ≤ s.world.log.count (.text "emit chat message") ∧
    s.world.log.count (.text "emit chat message") ≤
      s.world.log.count (.text "viewModelScope.launch") ∧
    s.world.log.count (.text "viewModelScope.launch") ≤
      (es.filterMap Event.launch?).count .viewModelScope ∧
    s.world.log.filterMap LogLine.message? = es.filterMap Event.received? := by
  rcases exists_outputs h with ⟨log, hlog⟩
  have hparts : ∀ i,
      (partOf i log).count (.sent hello) ≤ (partOf i log).count (.log "emit chat message") ∧
      (partOf i log).count (.log "emit chat message") ≤
        (partOf i log).count (.log "viewModelScope.launch") ∧
      (partOf i log).count (.log "viewModelScope.launch") ≤
        (partOf i log).count (.launched .viewModelScope) ∧
      ∀ m, .sent m ∈ partOf i log → m = hello := by
    intro i
    rcases hlog.part_cases i with hnil | ⟨c, hscript⟩
    · simp [hnil]
    · exact hscript.chat_counts
  have hcount : ∀ o : Output, log.countP (fun x => x.2 == o) = (log.map Prod.snd).count o := by
    intro o
    rw [List.count, List.countP_map]
    rfl
  have hhello : ∀ m, .sent m ∈ log.map Prod.snd → m = hello := by
    intro m hm
    rcases List.mem_map.1 hm with ⟨⟨i, o⟩, hmem, rfl⟩
    refine (hparts i).2.2.2 m ?_
    exact List.mem_filterMap.2 ⟨_, hmem, by simp⟩
  have hsent : s.world.sent = (log.map Prod.snd).filterMap Output.sent? := by
    rw [hlog.world, (foldl_write _ _).1]
    rfl
  have hlines : s.world.log = (log.map Prod.snd).filterMap Output.line? := by
    rw [hlog.world, (foldl_write _ _).2]
    rfl
  -- Each comparison holds for every coroutine alone, hence for the whole log.
  have hle₁ := countP_le_of_parts fun i => (hparts i).1
  have hle₂ := countP_le_of_parts fun i => (hparts i).2.1
  have hle₃ := countP_le_of_parts fun i => (hparts i).2.2.1
  simp only [hcount] at hle₁ hle₂ hle₃
  refine ⟨?_, ?_, ?_, ?_, ?_⟩
  · intro m hm
    rw [hsent] at hm
    rcases List.mem_filterMap.1 hm with ⟨o, ho, heq⟩
    cases o with
    | sent m' =>
        cases heq
        exact hhello m ho
    | _ =>
        cases heq
  · rw [hsent, length_sent hhello, hlines, count_text]
    exact hle₁
  · rw [hlines, count_text, count_text]
    exact hle₂
  · rw [hlines, count_text, ← hlog.launches]
    refine le_trans hle₃ (le_of_eq ?_)
    rw [List.count, List.count, List.countP_filterMap]
    refine List.countP_congr fun o _ => ?_
    cases o <;> simp [Output.launch?]
  · rw [hlines, ← hlog.messages, List.filterMap_filterMap]
    refine List.filterMap_congr fun o _ => ?_
    cases o <;> rfl

/-- One view model says hello and hears back, another one is cancelled before it is dispatched. -/
def twoClients : List Event :=
  [ .launch .viewModelScope
  , .launch .viewModelScope
  , .signal 0 .dispatched
  , .signal 1 .cancelled
  , .signal 0 .logged
  , .signal 0 .requestPulled
  , .signal 0 .requestPulled
  , .signal 0 (.messageReceived { userId := "server", content := "Hi", timestamp := "1" }) ]

theorem twoClients_sent :
    ∃ tr s, machine.Run twoClients tr s ∧ s.world.sent = [hello] ∧
      1 ≤ s.world.log.count (.text "emit chat message") := by
  have hexec : (machine.exec machine.init twoClients).map (fun s => s.world.sent) = some [hello] :=
    rfl
  rcases Machine.exists_run_of_exec (fun s : State => s.world.sent) hexec with ⟨tr, s, hrun, hsent⟩
  have hle := (chat_accounting hrun).2.1
  rw [hsent] at hle
  exact ⟨tr, s, hrun, hsent, hle⟩

end Background
end KmpApp
