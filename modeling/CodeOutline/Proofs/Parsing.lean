import CodeOutline.Parsing.Parser
import CodeOutline.Proofs.Tree

namespace CodeOutline.Parsing

open Grammar

variable {τ : Type} {table : Table τ} {P : Phrase → Prop}

/-- Tokens have the property, and phrases that are made of others have it from them. -/
structure IsInherited (table : Table τ) (P : Phrase → Prop) : Prop where
  token (origin : Cursor) (token : Token) : P (.ofToken origin token)
  missing (symbol : Nat) (place : Cursor) : P (.missing symbol place)
  phrase (symbol : Nat) (production : Option Nat) (place : Cursor) {parts : List Phrase}
    (h : ∀ part ∈ parts, P part) : P (table.phrase symbol production place parts)
  children {phrase : Phrase} (h : P phrase) : ∀ part ∈ phrase.children, P part
  asExtra {phrase : Phrase} (h : P phrase) : P phrase.asExtra
  withSymbol (symbol : Nat) {phrase : Phrase} (h : P phrase) : P (phrase.withSymbol symbol)
  weighted (weight : Int) {phrase : Phrase} (h : P phrase) :
    P (phrase.relabel fun part => { part with weight := part.weight + weight })

/-- All phrases on the ways back from a place have the property. -/
def StackNode.Holds (P : Phrase → Prop) (node : StackNode) : Prop :=
  ∀ link ∈ node.links, ∀ phrase ∈ link.phrase, P phrase

def Version.Holds (P : Phrase → Prop) (version : Version) : Prop :=
  ∀ token, version.status = .paused token → P token

def NodesHold (P : Phrase → Prop) (nodes : Array StackNode) : Prop :=
  ∀ index, (nodes.getD index default).Holds P

/-- All phrases of a run have the property. -/
structure Run.Holds (P : Phrase → Prop) (run : Run) : Prop where
  nodes : NodesHold P run.nodes
  versions : ∀ version ∈ run.versions, version.Holds P
  finished : ∀ phrase ∈ run.finished, P phrase

theorem holds_default : (default : StackNode).Holds P :=
  fun _ hm => absurd hm List.not_mem_nil

theorem Version.holds_default : (default : Version).Holds P :=
  nofun

theorem NodesHold.push {nodes : Array StackNode} (h : NodesHold P nodes) {node : StackNode}
    (hn : node.Holds P) : NodesHold P (nodes.push node) := by
  intro index
  rw [Array.getD_eq_getD_getElem?, Array.getElem?_push]
  split
  · exact hn
  · rw [← Array.getD_eq_getD_getElem?]
    exact h index

theorem NodesHold.modify {nodes : Array StackNode} (h : NodesHold P nodes) (target : Nat)
    {change : StackNode → StackNode} (hc : (change (nodes.getD target default)).Holds P) :
    NodesHold P (nodes.modify target change) := by
  intro index
  have hi := h index
  rw [Array.getD_eq_getD_getElem?] at hi hc ⊢
  rw [Array.getElem?_modify]
  split
  · next he =>
    subst he
    cases hn : nodes[target]? with
    | none => exact holds_default
    | some node =>
      rw [hn] at hc
      exact hc
  · exact hi

namespace Run

variable {run : Run}

theorem Holds.node (h : run.Holds P) (index : Nat) : (run.node index).Holds P :=
  h.nodes index

theorem Holds.version (h : run.Holds P) (index : Nat) : (run.version index).Holds P := by
  rw [Run.version, List.getD_eq_getElem?_getD]
  cases hv : run.versions[index]? with
  | none => exact Version.holds_default
  | some version => exact h.versions version (List.mem_of_getElem? hv)

theorem Holds.head (h : run.Holds P) (index : Nat) : (run.head index).Holds P :=
  h.node _

theorem Holds.setVersion (h : run.Holds P) (index : Nat) {version : Version}
    (hv : version.Holds P) : (run.setVersion index version).Holds P where
  nodes := h.nodes
  versions other hm := by
    rcases List.mem_or_eq_of_mem_set hm with hm | rfl
    · exact h.versions other hm
    · exact hv
  finished := h.finished

theorem Holds.dropVersion (h : run.Holds P) (index : Nat) : (run.dropVersion index).Holds P where
  nodes := h.nodes
  versions other hm := h.versions other (List.mem_of_mem_eraseIdx hm)
  finished := h.finished

theorem Holds.addVersion (h : run.Holds P) {version : Version} (hv : version.Holds P) :
    Holds P { run with versions := run.versions ++ [version] } where
  nodes := h.nodes
  versions other hm := by
    rcases List.mem_append.1 hm with hm | hm
    · exact h.versions other hm
    · rw [List.mem_singleton.1 hm]
      exact hv
  finished := h.finished

theorem Holds.halt (h : run.Holds P) (index : Nat) : (run.halt index).Holds P :=
  h.setVersion index nofun

theorem Holds.moveVersion (h : run.Holds P) (later earlier : Nat) :
    (run.moveVersion later earlier).Holds P := by
  rw [Run.moveVersion]
  split
  · exact h
  · refine (h.setVersion earlier ?_).dropVersion later
    split <;> exact h.version later

theorem Holds.push (h : run.Holds P) (index state : Nat) {phrase : Option Phrase}
    (hp : ∀ part ∈ phrase, P part) : (run.push table index state phrase).Holds P where
  nodes := by
    refine h.nodes.push fun link hm => ?_
    cases phrase with
    | none =>
      cases List.mem_singleton.1 hm
      exact nofun
    | some phrase =>
      cases List.mem_singleton.1 hm
      exact hp
  versions other hm := by
    rcases List.mem_or_eq_of_mem_set hm with hm | rfl
    · exact h.versions other hm
    · exact h.version index
  finished := h.finished

theorem Holds.finish (h : run.Holds P) {whole : Phrase} (hw : P whole) (isBetter : Bool)
    (count : Nat) : Holds P { run with
      finished := if isBetter then some whole else run.finished, finishedCount := count } where
  nodes := h.nodes
  versions := h.versions
  finished phrase hm := by
    cases isBetter with
    | true => exact Option.some.inj hm ▸ hw
    | false => exact h.finished phrase hm

end Run

/-- Adding a way back adds no phrase but its own and those on the ways back from where it leads. -/
theorem NodesHold.addLink (limit target : Nat) {link : Link} {nodes : Array StackNode}
    (h : NodesHold P nodes) (hl : ∀ phrase ∈ link.phrase, P phrase) :
    NodesHold P (addLink table limit target link nodes) := by
  induction limit generalizing target link nodes with
  | zero => exact h
  | succ limit ih =>
    rw [Parsing.addLink]
    split
    · exact h
    simp only
    split
    · next index hi =>
      split
      · split
        · refine h.modify target fun other hm => ?_
          rcases List.mem_or_eq_of_mem_set hm with hm | rfl
          · exact h target other hm
          · exact hl
        · exact h
      · have hfold (other : Nat) : NodesHold P ((nodes.getD link.node default).links.foldl
            (fun nodes link => Parsing.addLink table limit other link nodes) nodes) :=
          List.foldlRecOn _ _ h fun _ ho link hm => ih other ho (h _ link hm)
        refine (hfold _).modify target ?_
        exact hfold _ target
    · split
      · exact h
      · refine h.modify target fun other hm => ?_
        rcases List.mem_append.1 hm with hm | hm
        · exact h target other hm
        · rw [List.mem_singleton.1 hm]
          exact hl

namespace Run

variable {run : Run}

theorem Holds.merge (h : run.Holds P) (first second : Nat) :
    (run.merge table first second).Holds P := by
  have hlinks := h.head second
  have hkept := h.version first
  have hnodes : NodesHold P ((run.head second).links.foldl (fun nodes link =>
      Parsing.addLink table nodes.size (run.version first).node link nodes) run.nodes) :=
    List.foldlRecOn _ _ h.nodes fun _ ho link hm => ho.addLink _ _ (hlinks link hm)
  refine ⟨hnodes, fun version hm => ?_, h.finished⟩
  rcases List.mem_or_eq_of_mem_set (List.mem_of_mem_eraseIdx hm) with hm | rfl
  · exact h.versions version hm
  · split <;> exact hkept

end Run

/-- All phrases on a way back have the property. -/
def Path.Holds (P : Phrase → Prop) (path : Path) : Prop :=
  ∀ phrase ∈ path.phrases, P phrase

theorem Path.Holds.along {path : Path} (h : path.Holds P) {link : Link}
    (hl : ∀ phrase ∈ link.phrase, P phrase) : (path.along link).Holds P := by
  rw [Path.along]
  split
  · next phrase he => exact List.forall_mem_cons.2 ⟨hl phrase he, h⟩
  · exact h

theorem holds_of_mem_followPaths {nodes : Array StackNode} (h : NodesHold P nodes)
    (isDone : Path → Bool) (limit : Nat) {paths : List Path} (hp : ∀ path ∈ paths, path.Holds P) :
    ∀ path ∈ followPaths nodes isDone limit paths, path.Holds P := by
  induction limit generalizing paths with
  | zero => exact fun path hm => absurd hm (by simp [followPaths])
  | succ limit ih =>
    cases paths with
    | nil => exact fun path hm => absurd hm (by simp [followPaths])
    | cons path paths =>
      simp only [followPaths, List.partition_eq_filter_filter]
      generalize hw : ((path :: paths).filter (not ∘ isDone)).map _ = ways
      -- The paths that go on are cut down to a limit, which leaves a part of those they may take.
      have hways : ∀ way ∈ ways, ∀ path ∈ way, path.Holds P := by
        intro way hm
        rw [← hw] at hm
        obtain ⟨path, hpath, rfl⟩ := List.mem_map.1 hm
        refine List.forall_mem_map.2 fun link hl => ?_
        exact (hp path (List.mem_filter.1 hpath).1).along (h path.node link hl)
      refine List.forall_mem_append.2 ⟨fun path hm => hp path (List.mem_filter.1 hm).1, ih ?_⟩
      refine List.forall_mem_append.2 ⟨fun path hm => ?_, fun path hm => ?_⟩
      · obtain ⟨way, hway, hhead⟩ := List.mem_filterMap.1 hm
        exact hways way hway path (List.mem_of_head? hhead)
      · obtain ⟨way, hway, htail⟩ := List.mem_flatMap.1 (List.mem_of_mem_take hm)
        exact hways way hway path (List.mem_of_mem_tail htail)

theorem Run.Holds.back {run : Run} (h : run.Holds P) (index count : Nat) :
    ∀ entry ∈ run.back index count, ∀ way ∈ entry.2, ∀ phrase ∈ way, P phrase := by
  rw [Run.back, gatherPaths]
  refine List.forall_mem_map.2 fun place _ way hm => ?_
  obtain ⟨path, hpath, rfl⟩ := List.mem_map.1 hm
  refine holds_of_mem_followPaths h.nodes _ _ ?_ path (List.mem_filter.1 hpath).1
  exact List.forall_mem_singleton.2 nofun

theorem Run.Holds.allBack {run : Run} (h : run.Holds P) (index : Nat) :
    ∀ way ∈ run.allBack index, ∀ phrase ∈ way, P phrase := by
  refine List.forall_mem_map.2 ?_
  exact holds_of_mem_followPaths h.nodes _ _ (List.forall_mem_singleton.2 nofun)

theorem forall_mem_splitExtras {phrases : List Phrase} (h : ∀ phrase ∈ phrases, P phrase) :
    (∀ part ∈ (Phrase.splitExtras phrases).1, P part) ∧
      ∀ extra ∈ (Phrase.splitExtras phrases).2, P extra := by
  constructor
  · intro part hm
    exact h part (List.mem_of_mem_take hm)
  · intro extra hm
    exact h extra (List.mem_reverse.1 ((List.takeWhile_sublist _).subset (List.mem_reverse.1 hm)))

theorem bestPhrase_holds (h : IsInherited table P) (head production : Nat) (place : Cursor)
    {ways : List (List Phrase)} (hw : ∀ way ∈ ways, ∀ phrase ∈ way, P phrase) :
    P (bestPhrase table head production place ways).1 ∧
      ∀ extra ∈ (bestPhrase table head production place ways).2, P extra := by
  have hmake {phrases : List Phrase} (hp : ∀ phrase ∈ phrases, P phrase) :
      P (table.phrase head (some production) place (Phrase.splitExtras phrases).1) ∧
        ∀ extra ∈ (Phrase.splitExtras phrases).2, P extra :=
    (forall_mem_splitExtras hp).imp_left (h.phrase _ _ _)
  cases ways with
  | nil => exact hmake fun phrase hm => absurd hm List.not_mem_nil
  | cons first others =>
    obtain ⟨hfirst, hothers⟩ := List.forall_mem_cons.1 hw
    simp only [bestPhrase]
    refine List.foldlRecOn
      (motive := fun best : Phrase × List Phrase => P best.1 ∧ ∀ extra ∈ best.2, P extra)
      _ _ (hmake hfirst) fun best hb way hm => ?_
    split
    · exact hmake (hothers way hm)
    · exact hb

/-- A step of a parser leads from runs of phrases with the property to such runs. -/
def Keeps {α : Type} (P : Phrase → Prop) (step : Parse α) : Prop :=
  ∀ run automaton, run.Holds P → (step run automaton).1.2.Holds P

variable {α β : Type}

theorem Keeps.pure (value : α) : Keeps P (pure value) :=
  fun _ _ hr => hr

theorem Keeps.bind {step : Parse α} {next : α → Parse β} (h : Keeps P step)
    (hn : ∀ value, Keeps P (next value)) : Keeps P (step >>= next) :=
  fun run automaton hr => hn _ _ _ (h run automaton hr)

theorem Keeps.get {next : Run → Parse α} (hn : ∀ run, run.Holds P → Keeps P (next run)) :
    Keeps P (get >>= next) :=
  fun run automaton hr => hn run hr run automaton hr

theorem Keeps.set {run : Run} (h : run.Holds P) : Keeps P (set run : Parse PUnit) :=
  fun _ _ _ => h

theorem Keeps.modify {change : Run → Run} (h : ∀ run, run.Holds P → (change run).Holds P) :
    Keeps P (modify change : Parse PUnit) :=
  fun run _ hr => h run hr

theorem Keeps.modifyGet {change : Run → α × Run} (h : ∀ run, run.Holds P → (change run).2.Holds P) :
    Keeps P (modifyGet change : Parse α) :=
  fun run _ hr => h run hr

theorem Keeps.query (query : StateM Automaton α) : Keeps P (monadLift query : Parse α) :=
  fun _ _ hr => hr

theorem Keeps.ite {c : Prop} [Decidable c] {step other : Parse α} (h : Keeps P step)
    (ho : Keeps P other) : Keeps P (if c then step else other) := by
  split
  · exact h
  · exact ho

theorem Keeps.either {c : Prop} [Decidable c] {step other : Parse α} {next : α → Parse β}
    (h : Keeps P step) (ho : Keeps P other) (hn : ∀ value, Keeps P (next value)) :
    Keeps P (if c then step >>= next else other >>= next) :=
  .ite (h.bind hn) (ho.bind hn)

theorem Keeps.forM {list : List β} {step : β → Parse PUnit}
    (h : ∀ item ∈ list, Keeps P (step item)) : Keeps P (list.forM step) := by
  induction list with
  | nil => exact .pure _
  | cons item others ih =>
    obtain ⟨hi, ho⟩ := List.forall_mem_cons.1 h
    exact hi.bind fun _ => ih ho

theorem Keeps.mapM {step : β → Parse α} (h : ∀ item, Keeps P (step item)) (list : List β) :
    Keeps P (list.mapM step) := by
  induction list with
  | nil => exact .pure _
  | cons item others ih =>
    rw [List.mapM_cons]
    exact (h item).bind fun _ => ih.bind fun _ => .pure _

theorem Keeps.foldlM {step : α → β → Parse α} (h : ∀ value item, Keeps P (step value item))
    (list : List β) (initial : α) : Keeps P (list.foldlM step initial) := by
  induction list generalizing initial with
  | nil => exact .pure _
  | cons item others ih =>
    rw [List.foldlM_cons]
    exact (h initial item).bind fun value => ih value

theorem keeps_push (index state : Nat) {phrase : Option Phrase} (h : ∀ part ∈ phrase, P part) :
    Keeps P (push table index state phrase) :=
  .modify fun _ hr => hr.push index state h

theorem keeps_pushSome (index state : Nat) {phrase : Phrase} (h : P phrase) :
    Keeps P (push table index state (some phrase)) :=
  keeps_push index state fun _ hm => Option.some.inj hm ▸ h

theorem keeps_mergeWithin (others : List Nat) (index : Nat) :
    Keeps P (mergeWithin table others index) := by
  refine .modifyGet fun run hr => ?_
  split
  · exact hr.merge _ _
  · exact hr

theorem keeps_reduce (h : IsInherited table P) (index production : Nat) :
    Keeps P (reduce table index production) := by
  rw [reduce]
  refine .get fun run hrun => (Keeps.forM fun entry hm => ?_).bind fun _ => .get fun _ _ => .pure _
  refine .get fun current _ => .ite ?_ (.pure _)
  have hways := hrun.back _ _ entry hm
  obtain ⟨hphrase, hextras⟩ := bestPhrase_holds h (table.production production).head production
    (current.node entry.1).cursor hways
  simp only
  refine (Keeps.query _).bind fun target => ?_
  refine (Keeps.modify fun run hr => hr.addVersion nofun).bind fun _ => ?_
  refine (keeps_pushSome _ _ (h.weighted _ hphrase)).bind fun _ => ?_
  refine (Keeps.forM fun extra he => keeps_pushSome _ _ (hextras extra he)).bind fun _ => ?_
  exact (keeps_mergeWithin _ _).bind fun _ => .pure _

theorem keeps_possibilities (state : Nat) (tokens : List Nat) :
    Keeps P (possibilities table state tokens) := by
  rw [possibilities]
  exact (Keeps.mapM (fun _ => .query _) tokens).bind fun _ => .pure _

theorem keeps_reduceAll (h : IsInherited table P) (tokens : List Nat) (isOpen : Bool)
    (first limit before round index : Nat) (takes : Bool) :
    Keeps P (reduceAll table tokens isOpen first limit before round index takes) := by
  induction limit generalizing before round index takes with
  | zero => exact .pure _
  | succ limit ih =>
    rw [reduceAll]
    refine .get fun run _ => .ite (.pure _) ?_
    refine (keeps_mergeWithin _ _).bind fun merged => .ite (ih _ _ _ _) ?_
    refine .get fun _ _ => (keeps_possibilities _ _).bind fun found => ?_
    refine (Keeps.mapM (fun production => keeps_reduce h _ production) _).bind fun versions => ?_
    refine .ite (ih _ _ _ _) ?_
    have hrest {goOn : Parse Bool} (hg : Keeps P goOn) : Keeps P (if isOpen then goOn else do
        modify fun run => run.dropVersion index
        goOn) :=
      .ite hg ((Keeps.modify fun _ hr => hr.dropVersion index).bind fun _ => hg)
    simp only
    split
    · refine .ite ?_ (hrest (ih _ _ _ _))
      exact (Keeps.modify fun _ hr => hr.moveVersion _ _).bind fun _ => ih _ _ _ _
    · exact hrest (ih _ _ _ _)

theorem lastError?_holds (h : IsInherited table P) {node : StackNode} (hn : node.Holds P)
    (place : Nat) : ∀ part ∈ ((lastError? table node).getD (place, [])).2, P part := by
  cases hf : lastError? table node with
  | none => exact fun part hm => absurd hm List.not_mem_nil
  | some found =>
    obtain ⟨link, hm, hl⟩ := List.exists_of_findSome?_eq_some hf
    split at hl
    · next phrase he =>
      obtain ⟨_, hfound⟩ := Option.ite_none_right_eq_some.1 hl
      cases hfound
      exact h.children (hn link hm phrase he)
    · cases hl

theorem forall_mem_headD {ways : List (List Phrase)} (h : ∀ way ∈ ways, ∀ phrase ∈ way, P phrase) :
    ∀ phrase ∈ ways.headD [], P phrase := by
  cases ways with
  | nil => exact fun phrase hm => absurd hm List.not_mem_nil
  | cons first others => exact h first List.mem_cons_self

theorem keeps_returnTo (h : IsInherited table P) (index depth state : Nat) :
    Keeps P (returnTo table index depth state) := by
  rw [returnTo]
  refine .get fun run hrun => (Keeps.forM fun entry hm => ?_).bind fun _ => .pure _
  refine .get fun current hcurrent => ?_
  have hways := hrun.back _ _ entry (List.mem_filter.1 hm).1
  have hbefore := lastError?_holds h (hcurrent.node entry.1) entry.1
  simp only
  generalize (lastError? table (current.node entry.1)).getD (entry.1, []) = found at hbefore ⊢
  obtain ⟨hparts, hextras⟩ := forall_mem_splitExtras
    (List.forall_mem_append.2 ⟨hbefore, forall_mem_headD hways⟩)
  have hpush : Keeps P ((Phrase.splitExtras (found.2 ++ entry.2.headD [])).2.forM fun extra =>
      push table current.versions.length state (some extra)) :=
    .forM fun extra he => keeps_pushSome _ _ (hextras extra he)
  refine (Keeps.set (hcurrent.addVersion ?_)).bind fun _ => .ite hpush ?_
  · exact nofun
  · exact (keeps_pushSome _ _ (h.asExtra (h.phrase _ _ _ hparts))).bind fun _ => hpush

theorem keeps_returnToAny (h : IsInherited table P) (index : Nat) (token : Phrase)
    (versionCount : Nat) (checkpoints : List Checkpoint) :
    Keeps P (returnToAny table index token versionCount checkpoints) := by
  induction checkpoints with
  | nil => exact .pure _
  | cons checkpoint others ih =>
    rw [returnToAny]
    refine .get fun run _ => .ite ih (.ite (.pure _) ?_)
    refine (Keeps.query _).bind fun actions => .ite ?_ ih
    exact (keeps_returnTo h _ _ _).bind fun returned => .ite (.pure _) ih

theorem keeps_finish (h : IsInherited table P) (index : Nat) {token : Phrase} (ht : P token) :
    Keeps P (finish table index token) := by
  rw [finish]
  refine (keeps_pushSome _ _ ht).bind fun _ => .get fun run hrun => ?_
  refine (Keeps.forM fun way hm => ?_).bind fun _ => .modify fun _ hr => hr.halt index
  have hway := hrun.allBack index way hm
  have hrest : ∀ phrase ∈ way.reverse.dropWhile Phrase.isExtra, P phrase := fun phrase hp =>
    hway phrase (List.mem_reverse.1 ((List.dropWhile_sublist _).subset hp))
  simp only
  split
  · next root before he =>
    rw [he] at hrest
    obtain ⟨hroot, hbefore⟩ := List.forall_mem_cons.1 hrest
    refine .modify fun current hcurrent => hcurrent.finish (h.phrase _ _ _ ?_) _ _
    refine List.forall_mem_append.2 ⟨List.forall_mem_append.2 ⟨?_, h.children hroot⟩, ?_⟩
    · exact fun part hm => hbefore part (List.mem_reverse.1 hm)
    · exact fun part hm => hway part (List.mem_of_mem_drop hm)
  · exact .pure _

theorem keeps_passOver (h : IsInherited table P) (index : Nat) {token : Phrase} (ht : P token) :
    Keeps P (passOver table index token) := by
  have htoken : P (if table.isExtra token.symbol then token.asExtra else token) := by
    split
    · exact h.asExtra ht
    · exact ht
  rw [passOver]
  simp only
  generalize (if table.isExtra token.symbol then token.asExtra else token) = token at htoken ⊢
  refine .get fun run hrun => ?_
  have hskipped := h.phrase table.skippedSymbol none (run.head index).cursor
    (List.forall_mem_singleton.2 htoken)
  refine .ite (keeps_pushSome _ _ hskipped) ?_
  split
  · exact keeps_pushSome _ _ hskipped
  · next below ways _ he =>
    have hways := forall_mem_headD (hrun.back index 1 (below, ways) (he ▸ List.mem_cons_self))
    refine (Keeps.set (hrun.setVersion index ?_)).bind fun _ => keeps_pushSome _ _ (h.phrase _ _ _ ?_)
    · exact hrun.version index
    · exact List.forall_mem_append.2 ⟨hways, List.forall_mem_singleton.2 hskipped⟩

theorem keeps_recover (h : IsInherited table P) (index : Nat) {token : Phrase} (ht : P token) :
    Keeps P (recover table index token) := by
  rw [recover]
  refine .get fun run _ => ?_
  refine .either (keeps_returnToAny h _ _ _ _) (.pure _) fun returned => .get fun run hrun => ?_
  refine .ite (.set (hrun.halt index)) (.ite ?_ ?_)
  · refine (keeps_pushSome _ _ (h.phrase _ _ _ ?_)).bind fun _ => keeps_finish h _ ht
    exact fun part hm => absurd hm List.not_mem_nil
  · exact .ite (.set (hrun.halt index)) (keeps_passOver h _ ht)

theorem keeps_supply (h : IsInherited table P) (index : Nat) (token : Phrase)
    (candidates : List Nat) : Keeps P (supply table index token candidates) := by
  induction candidates with
  | nil => exact .pure _
  | cons missing others ih =>
    rw [supply]
    refine .get fun run _ => (Keeps.query _).bind fun target => ?_
    simp only
    split
    · exact ih
    · refine (Keeps.query _).bind fun actions => .ite ih (.get fun current hcurrent => ?_)
      refine (Keeps.set (hcurrent.addVersion ?_)).bind fun _ => ?_
      · exact hcurrent.version index
      · refine (keeps_pushSome _ _ (h.missing _ _)).bind fun _ => ?_
        exact (keeps_reduceAll h _ _ _ _ _ _ _ _).bind fun _ => .ite (.pure _) ih

theorem keeps_breakOff (h : IsInherited table P) (index : Nat) {token : Phrase} (ht : P token) :
    Keeps P (breakOff table index token) := by
  rw [breakOff]
  refine .get fun run _ => (keeps_reduceAll h _ _ _ _ _ _ _ _).bind fun _ => .get fun _ _ => ?_
  refine (Keeps.foldlM (fun supplied version => ?_) _ _).bind fun _ => ?_
  · refine .either (.pure _) (keeps_supply h _ _ _) fun supplied => ?_
    exact (keeps_push _ _ nofun).bind fun _ => .pure _
  · refine (Keeps.modify fun run hr => ?_).bind fun _ => (Keeps.modify fun run hr => ?_).bind fun _ =>
      keeps_recover h _ ht
    · refine List.foldlRecOn _ _ hr fun run hr _ _ => ?_
      split
      · exact hr.merge _ _
      · exact hr
    · exact hr.setVersion index (hr.version index)

theorem keeps_perform (h : IsInherited table P) (index state : Nat) {token : Phrase} (ht : P token)
    (actions : List Action) (outcome : Outcome) :
    Keeps P (perform table index state token actions outcome) := by
  induction actions generalizing outcome with
  | nil => exact .pure _
  | cons action others ih =>
    cases action with
    | shift again =>
      cases again with
      | true => exact ih _
      | false => exact (Keeps.query _).bind fun _ => (keeps_pushSome _ _ ht).bind fun _ => .pure _
    | reduce production =>
      refine (keeps_reduce h _ _).bind fun reduced => ?_
      cases reduced <;> exact ih _
    | accept => exact (keeps_finish h _ ht).bind fun _ => .pure _
    | pass => exact (keeps_pushSome _ _ (h.asExtra ht)).bind fun _ => .pure _
    | recover => exact (keeps_recover h _ ht).bind fun _ => .pure _

theorem keeps_consume (h : IsInherited table P) (index limit : Nat) {token : Phrase}
    (ht : P token) : Keeps P (consume table index limit token) := by
  induction limit generalizing token with
  | zero => exact .modify fun _ hr => hr.halt index
  | succ limit ih =>
    rw [consume]
    refine .get fun run _ => .either (.pure _) (.query _) fun actions => ?_
    refine (keeps_perform h _ _ ht _ _).bind fun outcome => ?_
    cases outcome with
    | done => exact .pure _
    | reduced version => exact (Keeps.modify fun _ hr => hr.moveVersion _ _).bind fun _ => ih ht
    | nothing =>
      refine (Keeps.query _).bind fun _ => .ite (ih (h.withSymbol _ ht)) (.modify fun run hr => ?_)
      refine hr.setVersion index fun waiting he => ?_
      cases he
      exact ht

variable {lexer : Lexer}

theorem keeps_advance (h : IsInherited table P) (limit index : Nat) :
    Keeps P (advance table lexer limit index) := by
  rw [advance]
  refine .get fun run _ => .ite ((Keeps.pure _).bind fun token => ?_)
    ((Keeps.query _).bind fun _ => (Keeps.pure _).bind fun token => ?_)
  all_goals exact keeps_consume h _ _ (h.token _ _)

theorem keeps_advanceVersion (h : IsInherited table P) (limit index rounds farthest : Nat) :
    Keeps P (advanceVersion table lexer limit index rounds farthest) := by
  induction rounds generalizing farthest with
  | zero => exact .pure _
  | succ rounds ih =>
    rw [advanceVersion]
    refine .get fun run _ => .ite (.pure _) ((keeps_advance h _ _).bind fun _ => .get fun _ _ => ?_)
    exact .ite (.pure _) (ih _)

theorem keeps_advanceVersions (h : IsInherited table P) (limit rounds index farthest : Nat) :
    Keeps P (advanceVersions table lexer limit rounds index farthest) := by
  induction rounds generalizing index farthest with
  | zero => exact .pure _
  | succ rounds ih =>
    rw [advanceVersions]
    refine .get fun run _ => .ite (.pure _) ?_
    exact (keeps_advanceVersion h _ _ _ _).bind fun _ => ih _ _

theorem Run.Holds.settleVersion (limit : Nat) {run : Run} (h : run.Holds P) (index other : Nat) :
    (Run.settleVersion table limit run index other).1.Holds P := by
  induction limit generalizing run index other with
  | zero => exact h
  | succ limit ih =>
    rw [Run.settleVersion]
    split
    · exact h
    split
    · exact h.dropVersion _
    · exact ih (h.dropVersion _) _ _
    · split
      · exact h.merge _ _
      split
      · exact ih ((h.setVersion _ (h.version _)).setVersion _ (h.version _)) _ _
      · exact ih h _ _

theorem Run.Holds.settleVersions (limit : Nat) {run : Run} (h : run.Holds P) (index : Nat) :
    (Run.settleVersions table limit run index).Holds P := by
  induction limit generalizing run index with
  | zero => exact h
  | succ limit ih =>
    rw [Run.settleVersions]
    split
    · exact h
    split
    · exact ih (h.dropVersion _) _
    · have hs : (Run.settleVersion table (2 * run.versions.length + 1) run index 0).1.Holds P :=
        h.settleVersion _ _ _
      exact ih hs _

theorem keeps_condense (h : IsInherited table P) : Keeps P (condense table) := by
  rw [condense]
  refine .get fun _ _ => (Keeps.modify fun run hr => ?_).bind fun _ => .get fun run hrun => ?_
  · have hsettled : (run.settleVersions table (4 * run.versions.length + 4) 0).Holds P :=
      hr.settleVersions _ _
    exact ⟨hsettled.nodes, fun version hm => hsettled.versions version (List.mem_of_mem_take hm),
      hsettled.finished⟩
  have hwaiting (token : Phrase)
      (he : run.versions.head?.map Version.status = some (.paused token)) : P token := by
    obtain ⟨version, hm, hs⟩ := Option.map_eq_some_iff.1 he
    exact hrun.versions version (List.mem_of_head? hm) token hs
  have hdrop (result : Option Nat) : Keeps P (do
      modify fun run =>
        { run with versions := run.versions.filter fun version => !version.isPaused }
      return result) := by
    refine (Keeps.modify fun run hr => ?_).bind fun _ => .pure _
    exact ⟨hr.nodes, fun version hm => hr.versions version (List.mem_filter.1 hm).1, hr.finished⟩
  simp only
  split
  · next token he =>
    obtain ⟨he, _⟩ := Option.filter_eq_some_iff.1 he
    split at he
    · next hpaused =>
      cases he
      refine (Keeps.set (hrun.setVersion 0 ?_)).bind fun _ => ?_
      · exact nofun
      · exact (keeps_breakOff h 0 (hwaiting token hpaused)).bind fun _ => hdrop _
    · cases he
  · exact hdrop _

theorem keeps_readAll (h : IsInherited table P) (limit rounds farthest : Nat) :
    Keeps P (readAll table lexer limit rounds farthest) := by
  induction rounds generalizing farthest with
  | zero => exact .pure _
  | succ rounds ih =>
    rw [readAll]
    refine .get fun run _ => .ite (.pure _) ((keeps_advanceVersions h _ _ _ _).bind fun _ => ?_)
    exact (keeps_condense h).bind fun _ => .get fun _ _ => .ite (.pure _) (ih _)

theorem holds_start (cursor : Cursor) : (Run.start cursor).Holds P where
  nodes := by
    have hempty : NodesHold P #[] := fun _ => holds_default
    exact hempty.push fun link hm => absurd hm List.not_mem_nil
  versions version hm := by
    rw [List.mem_singleton.1 hm]
    exact nofun
  finished := nofun

/-- What tokens have and phrases inherit the result of a parser has. -/
theorem parse_holds (h : IsInherited table P) (lexer : Lexer) (cursor : Cursor) :
    ∀ phrase ∈ parse table lexer cursor, P phrase := by
  intro phrase hm
  have hread : Keeps P (readAll table lexer (16 * cursor.rest.length + 256)
      (16 * cursor.rest.length + 256) 0) := keeps_readAll h _ _ _
  simp only [parse] at hm
  generalize readAll table lexer (16 * cursor.rest.length + 256) (16 * cursor.rest.length + 256) 0 =
    reading at hread hm
  exact (hread (.start cursor) table.automaton (holds_start cursor)).finished phrase hm

end CodeOutline.Parsing
