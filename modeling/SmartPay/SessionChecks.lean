import SmartPay.HistoryChecks
import SmartPay.IdentifierChecks

/-!
What one client may conclude from the replies it has got. Ids are handed out in real
time, a terminal that a reply has told of stays as it is, and nothing is read that was
not posted.
-/

namespace SmartPay

open CLib

open scoped List

/-- The texts posted by the operations of an order. -/
def textsOf (operations : List (Nat × Request × Text)) : List Text :=
  postedTexts (operations.map fun entry => entry.2.1)

theorem textsOf_append (first second : List (Nat × Request × Text)) :
    textsOf (first ++ second) = textsOf first ++ textsOf second := by
  rw [textsOf, textsOf, textsOf, List.map_append, postedTexts, List.filterMap_append]
  rfl

theorem textsOf_post (r : Nat) (text reply : Text) (rest : List (Nat × Request × Text)) :
    textsOf ((r, .post text, reply) :: rest) = text :: textsOf rest := rfl

theorem mem_textsOf {operations : List (Nat × Request × Text)} {text : Text}
    (member : text ∈ textsOf operations) : ∃ r reply, (r, .post text, reply) ∈ operations := by
  obtain ⟨request, inside, posts⟩ := List.mem_filterMap.mp member
  obtain ⟨⟨r, asked, reply⟩, entry, rfl⟩ := List.mem_map.mp inside
  cases asked with
  | get termId leftover => cases posts
  | post other =>
      cases posts
      exact ⟨r, reply, entry⟩

theorem returned_service {past : List (Event Nat Request Text)}
    {before after : List (Nat × Request × Text)} {r : Nat} {request : Request} {reply : Text}
    (linearized : LinearizedBy serviceStep [] past (before ++ (r, request, reply) :: after)) :
    reply = (serviceStep (textsOf before) request).2 := by
  have result := linearized.returned
  rwa [stateAfter_service, List.nil_append] at result

/-! What a reply says about a store. -/

theorem getReply_id (texts : List Text) (k : Nat) :
    getReply texts k = notFoundReply ∨
      ∃ text, ((k : Int), text) ∈ numbered texts ∧ getReply texts k = singleReply (k, text) := by
  rcases getReply_cases texts k with missing | ⟨whole, _⟩ | ⟨entry, inside, id, found⟩
  · exact Or.inl missing
  · simp only [all] at whole
    omega
  · exact Or.inr ⟨entry.2, by rwa [← id], by rw [← id, ← found, id]⟩

theorem numbered_of_getReply {texts : List Text} {k : Nat} {text : Text}
    (same : getReply texts k = singleReply (k, text)) : ((k : Int), text) ∈ numbered texts := by
  rcases getReply_id texts k with missing | ⟨other, inside, found⟩
  · exact absurd (same.symm.trans missing) (singleReply_ne_notFound _)
  · rw [found] at same
    rw [← singleReply_inj (by simp) (by simp) same]
    exact inside

/-- A reply that tells of terminal `k` and its text: to the POST that made it, or to a GET. -/
inductive ToldOf (k : Nat) (text : Text) : Request → Text → Prop
  | posted : ToldOf k text (.post text) (postReply k)
  | read (leftover : Text) : ToldOf k text (.get k leftover) (singleReply (k, text))

theorem ToldOf.stored {k : Nat} {text reply : Text} {request : Request} {texts : List Text}
    (tells : ToldOf k text request reply) (returned : reply = (serviceStep texts request).2) :
    ((k : Int), text) ∈ numbered (serviceStep texts request).1 := by
  cases tells with
  | posted =>
      have same := postReply_inj (by simp) (by omega) returned
      simp only [serviceStep, numbered_snoc]
      simp [same]
  | read leftover => exact numbered_of_getReply returned.symm

theorem numbered_append_mem {texts more : List Text} {entry : Int × Text}
    (member : entry ∈ numbered texts) : entry ∈ numbered (texts ++ more) := by
  rw [numbered, numberedFrom_append]
  exact List.mem_append_left _ member

/-- Once a client has been told of a terminal, every GET of its id that is made after that, by
any client, returns its text. -/
theorem told_terminal_stays {actions : List Action} {first second k : Nat}
    {text leftover firstReply reply : Text} {request : Request}
    (tells : ToldOf k text request firstReply)
    (asked : .invoke first request ∈ freshHistory actions)
    (ordered : [.respond first firstReply, .invoke second (.get k leftover)] <+ freshHistory actions)
    (answered : .respond second reply ∈ freshHistory actions) : reply = singleReply (k, text) := by
  obtain ⟨final, explained⟩ := explained_history actions
  have linearized := explained.linearized
  obtain ⟨before, between, after, split⟩ := linearized.later asked ordered answered
  have told : firstReply = (serviceStep (textsOf before) request).2 := by
    rw [split] at linearized
    exact returned_service linearized
  have read : reply =
      getReply (textsOf (before ++ (first, request, firstReply) :: between)) k := by
    rw [split, ← List.cons_append, ← List.append_assoc] at linearized
    exact returned_service linearized
  have stored := tells.stored told
  rw [serviceStep_texts] at stored
  rw [read]
  apply getReply_single
  have grown : textsOf (before ++ (first, request, firstReply) :: between) =
      textsOf before ++ postedTexts [request] ++ textsOf between := by
    rw [← List.singleton_append, ← List.append_assoc, textsOf_append, textsOf_append]
    rfl
  rw [grown]
  exact numbered_append_mem stored

theorem pair_total {α : Type} {items : List α} {first second : α} (firstIn : first ∈ items)
    (secondIn : second ∈ items) (different : first ≠ second) :
    [first, second] <+ items ∨ [second, first] <+ items := by
  obtain ⟨before, after, rfl⟩ := List.append_of_mem firstIn
  rcases List.mem_append.mp secondIn with earlier | later
  · refine Or.inr (List.Sublist.append (List.singleton_sublist.mpr earlier) ?_)
    exact List.singleton_sublist.mpr (by simp)
  · refine Or.inl ((List.cons_sublist_cons.mpr (List.singleton_sublist.mpr ?_)).trans
      (List.sublist_append_right _ _))
    rcases List.mem_cons.mp later with same | inside
    · exact absurd same.symm different
    · exact inside

theorem id_of_place {past : List (Event Nat Request Text)}
    {before after : List (Nat × Request × Text)} {r i : Nat} {text : Text}
    (linearized : LinearizedBy serviceStep [] past
      (before ++ (r, .post text, postReply i) :: after)) : i = (textsOf before).length + 1 := by
  have same := postReply_inj (by simp) (by omega) (returned_service linearized)
  omega

theorem ids_ordered {past : List (Event Nat Request Text)}
    {order : List (Nat × Request × Text)} {first second i j : Nat} {text other : Text}
    (linearized : LinearizedBy serviceStep [] past order)
    (firstIn : (first, .post text, postReply i) ∈ order)
    (secondIn : (second, .post other, postReply j) ∈ order)
    (ordered : [first, second] <+ order.map Prod.fst) : i < j := by
  obtain ⟨before, between, after, rfl⟩ := linearized.split firstIn secondIn ordered
  have firstId := id_of_place linearized
  rw [← List.cons_append, ← List.append_assoc] at linearized
  have secondId := id_of_place linearized
  rw [textsOf_append, textsOf_post, List.length_append, List.length_cons] at secondId
  omega

/-- The steps in which one handler gets its request served, with no other in between. -/
def serveOne (h : Nat) (request : Request) : List Action :=
  [.create h request, .lock h, .add h, .unlock h] ++
    List.replicate 6 (.mgr MgrLocals.blank) ++ [.test h true, .copy h (lit ""), .mgr MgrLocals.blank]

def session : List Action :=
  [.main, .main, .mgr MgrLocals.blank, .mgr MgrLocals.blank] ++ serveOne 0 (.post (lit "a")) ++
    serveOne 1 (.get 1 (lit "")) ++ serveOne 0 (.post (lit "b"))

theorem session_history : freshHistory session =
    [.invoke 0 (.post (lit "a")), .respond 0 (postReply 1), .invoke 1 (.get 1 (lit "")),
      .respond 1 (singleReply (1, lit "a")), .invoke 2 (.post (lit "b")),
      .respond 2 (postReply 2)] := by decide +kernel

theorem told_terminal_stays_session :
    ∃ reply, .respond 1 reply ∈ freshHistory session ∧ reply = singleReply ((1 : Nat), lit "a") := by
  have asked : .invoke 0 (.post (lit "a")) ∈ freshHistory session := by
    rw [session_history]
    simp
  have ordered : [.respond 0 (postReply (1 : Nat)), .invoke 1 (.get (1 : Nat) (lit ""))] <+
      freshHistory session := by
    rw [session_history]
    decide +kernel
  have answered : .respond 1 (singleReply (1, lit "a")) ∈ freshHistory session := by
    rw [session_history]
    simp
  exact ⟨_, answered, told_terminal_stays ToldOf.posted asked ordered answered⟩

/-- The ids that clients are told are different, and grow with real time. -/
theorem ids_in_real_time {actions : List Action} {first second i j : Nat}
    {text other : Text} (different : first ≠ second)
    (firstAsked : .invoke first (.post text) ∈ freshHistory actions)
    (secondAsked : .invoke second (.post other) ∈ freshHistory actions)
    (firstTold : .respond first (postReply i) ∈ freshHistory actions)
    (secondTold : .respond second (postReply j) ∈ freshHistory actions) :
    1 ≤ i ∧ i ≠ j ∧
      ([.respond first (postReply i), .invoke second (.post other)] <+ freshHistory actions → i < j) := by
  obtain ⟨final, explained⟩ := explained_history actions
  have linearized := explained.linearized
  have firstIn := linearized.placed firstAsked firstTold
  have secondIn := linearized.placed secondAsked secondTold
  refine ⟨?_, ?_, ?_⟩
  · obtain ⟨before, after, split⟩ := List.append_of_mem firstIn
    rw [split] at linearized
    have place := id_of_place linearized
    omega
  · have firstPlace : first ∈ final.order.map Prod.fst := List.mem_map_of_mem firstIn
    have secondPlace : second ∈ final.order.map Prod.fst := List.mem_map_of_mem secondIn
    rcases pair_total firstPlace secondPlace different with ordered | ordered
    · exact Nat.ne_of_lt (ids_ordered linearized firstIn secondIn ordered)
    · exact Nat.ne_of_gt (ids_ordered linearized secondIn firstIn ordered)
  · intro earlier
    exact ids_ordered linearized firstIn secondIn (linearized.realTime first (postReply i) second
      (.post other) earlier (List.mem_map_of_mem secondIn))

theorem ids_in_real_time_session : 1 ≤ 1 ∧ 1 ≠ 2 ∧ ([.respond 0 (postReply (1 : Nat)),
    .invoke 2 (.post (lit "b"))] <+ freshHistory session → 1 < 2) := by
  have firstAsked : .invoke 0 (.post (lit "a")) ∈ freshHistory session := by
    rw [session_history]
    simp
  have secondAsked : .invoke 2 (.post (lit "b")) ∈ freshHistory session := by
    rw [session_history]
    simp
  have firstTold : .respond 0 (postReply (1 : Nat)) ∈ freshHistory session := by
    rw [session_history]
    simp
  have secondTold : .respond 2 (postReply (2 : Nat)) ∈ freshHistory session := by
    rw [session_history]
    simp
  exact ids_in_real_time (by decide) firstAsked secondAsked firstTold secondTold

/-- A GET of one id returns a text that some client has posted, or finds nothing; it finds
something when this id or a larger one was handed out before. -/
theorem get_returns_posted {actions : List Action} {second k : Nat} {leftover reply : Text}
    (asked : .invoke second (.get k leftover) ∈ freshHistory actions)
    (answered : .respond second reply ∈ freshHistory actions) :
    (reply = notFoundReply ∨ ∃ r text, .invoke r (.post text) ∈ freshHistory actions ∧
      reply = singleReply (k, text)) ∧
    ∀ first i text, 1 ≤ k → k ≤ i → .invoke first (.post text) ∈ freshHistory actions →
      [.respond first (postReply i), .invoke second (.get k leftover)] <+ freshHistory actions →
        reply ≠ notFoundReply := by
  obtain ⟨final, explained⟩ := explained_history actions
  have linearized := explained.linearized
  constructor
  · obtain ⟨before, after, split⟩ := List.append_of_mem (linearized.placed asked answered)
    have placed := linearized
    rw [split] at placed
    have read : reply = getReply (textsOf before) k := returned_service placed
    rw [read]
    rcases getReply_id (textsOf before) k with nothing | ⟨text, member, single⟩
    · exact Or.inl nothing
    · obtain ⟨r, told, inside⟩ := mem_textsOf (mem_numberedFrom member).2.2
      refine Or.inr ⟨r, text, ?_, single⟩
      refine linearized.invoked r (.post text) told ?_
      rw [split]
      exact List.mem_append_left _ inside
  · intro first i text positive small posted earlier
    obtain ⟨before, between, after, split⟩ := linearized.later posted earlier answered
    rw [split] at linearized
    have place := id_of_place linearized
    rw [← List.cons_append, ← List.append_assoc] at linearized
    have read : reply = getReply
        (textsOf (before ++ (first, .post text, postReply i) :: between)) k :=
      returned_service linearized
    obtain ⟨content, stored⟩ : ∃ content,
        (textsOf (before ++ (first, .post text, postReply i) :: between))[k - 1]? =
          some content := by
      refine ⟨_, List.getElem?_eq_getElem ?_⟩
      rw [textsOf_append, textsOf_post, List.length_append, List.length_cons]
      omega
    have member := numberedFrom_getElem 1 stored
    rw [show 1 + (k - 1) = k by omega] at member
    rw [read, getReply_single member]
    exact singleReply_ne_notFound _

theorem get_returns_posted_session :
    ∃ reply, .respond 1 reply ∈ freshHistory session ∧
      ((reply = notFoundReply ∨ ∃ r text, .invoke r (.post text) ∈ freshHistory session ∧
        reply = singleReply ((1 : Nat), text)) ∧ reply ≠ notFoundReply) := by
  have asked : .invoke 1 (.get (1 : Nat) (lit "")) ∈ freshHistory session := by
    rw [session_history]
    simp
  have answered : .respond 1 (singleReply (1, lit "a")) ∈ freshHistory session := by
    rw [session_history]
    simp
  have posted : .invoke 0 (.post (lit "a")) ∈ freshHistory session := by
    rw [session_history]
    simp
  have earlier : [.respond 0 (postReply (1 : Nat)), .invoke 1 (.get (1 : Nat) (lit ""))] <+
      freshHistory session := by
    rw [session_history]
    decide +kernel
  obtain ⟨known, found⟩ := get_returns_posted asked answered
  exact ⟨_, answered, known, found 0 1 (lit "a") (by decide) (by decide) posted earlier⟩

end SmartPay
