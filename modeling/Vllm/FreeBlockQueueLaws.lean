import Vllm.FreeBlockQueue

universe u

namespace Vllm.FreeKVCacheBlockQueue

open FreeNode

variable {β : Type u} [DecidableEq β] {q q' : FreeKVCacheBlockQueue β} {l bs seen : List β} {b : β}
  {links : Links (FreeNode β)}

def nodes (l : List β) : List (FreeNode β) := fakeHead :: (l.map block ++ [fakeTail])

structure Linked (seen : List β) (q : FreeKVCacheBlockQueue β) (l : List β) : Prop where
  chain : q.links.Chain (nodes l)
  headPrev : q.links.prev fakeHead = none
  tailNext : q.links.next fakeTail = none
  nodup : l.Nodup
  count : q.numFreeBlocks = l.length
  cleared : ∀ b ∈ seen, b ∉ l → q.links.prev (block b) = none ∧ q.links.next (block b) = none

omit [DecidableEq β] in
theorem block_injective : Function.Injective (block : β → FreeNode β) := fun _ _ => block.inj

omit [DecidableEq β] in
theorem mem_map_block : block b ∈ l.map block ↔ b ∈ l := List.mem_map_of_injective block_injective

omit [DecidableEq β] in
theorem nodup_nodes (h : l.Nodup) : (nodes l).Nodup := by
  refine List.nodup_cons.2 ⟨?_, ?_⟩
  · simp
  · refine List.nodup_append.2 ⟨h.map block_injective, List.nodup_singleton _, ?_⟩
    rintro x hx y hy rfl
    rw [List.mem_singleton.1 hy] at hx
    simp at hx

omit [DecidableEq β] in
theorem mem_nodes : block b ∈ nodes l ↔ b ∈ l := by simp [nodes]

omit [DecidableEq β] in
theorem exists_first (l : List β) : ∃ first rest, l.map block ++ [fakeTail] = first :: rest := by
  cases l with
  | nil => exact ⟨fakeTail, [], rfl⟩
  | cons b l => exact ⟨block b, l.map block ++ [fakeTail], rfl⟩

omit [DecidableEq β] in
theorem exists_last (l : List β) : ∃ front last, fakeHead :: l.map block = front ++ [last] := by
  have hne : fakeHead :: l.map block ≠ [] := List.cons_ne_nil _ _
  exact ⟨_, _, (List.dropLast_append_getLast hne).symm⟩

omit [DecidableEq β] in
theorem Linked.refines (h : Linked seen q l) : Refines seen q l where
  forward rounds hrounds := by
    obtain ⟨first, rest, hfirst⟩ := exists_first l
    have hchain := h.chain
    rw [nodes, hfirst] at hchain
    rw [getAllFreeBlocks, hchain.1]
    refine congrArg Except.ok ?_
    have hwalk := hchain.2.2
    rw [← hfirst] at hwalk
    refine hwalk.collect h.tailNext ?_ ?_
    · rwa [List.length_map]
    · rw [hfirst]
      rfl
  backward rounds hrounds := by
    obtain ⟨front, last, hlast⟩ := exists_last l
    have hflip := h.chain.flip
    rw [nodes, ← List.cons_append, hlast, List.reverse_append, List.reverse_append] at hflip
    refine ⟨last, hflip.1, ?_⟩
    have hwalk : q.links.flip.Chain ((front ++ [last]).reverse) := by
      rw [List.reverse_append]
      exact hflip.2.2
    rw [← hlast, List.reverse_cons] at hwalk
    show Links.collect q.links.flip.next rounds last = _
    refine hwalk.collect h.headPrev ?_ ?_
    · rwa [List.length_reverse, List.length_map]
    · rw [← List.reverse_cons, hlast, List.reverse_append]
      rfl
  nodup := h.nodup
  count := h.count
  cleared := h.cleared

theorem linkBlocks_spec (previous : Option β) (links : Links (FreeNode β)) (hnodup : l.Nodup) :
    (linkBlocks previous l links).Chain (l.map block) ∧
      (∀ x, x ∉ l.map block → (linkBlocks previous l links).next x = links.next x ∧
        (linkBlocks previous l links).prev x = links.prev x) ∧
      ∀ b p, l.head? = some b → previous = some p →
        (linkBlocks previous l links).prev (block b) = some (block p) := by
  induction l generalizing previous links with
  | nil => exact ⟨trivial, fun _ _ => ⟨rfl, rfl⟩, nofun⟩
  | cons b rest ih =>
    obtain ⟨hb, hnodup⟩ := List.nodup_cons.1 hnodup
    have hbrest : block b ∉ rest.map block := fun hmem => hb (mem_map_block.1 hmem)
    rw [linkBlocks]
    generalize hback : linkPrev previous b links = back
    generalize hboth : linkNext rest b back = both
    obtain ⟨hchain, hframe, hfirst⟩ := ih (some b) both hnodup
    have hbackFrame : ∀ x ≠ block b, back.next x = links.next x ∧ back.prev x = links.prev x := by
      intro x hx
      rw [← hback]
      cases previous with
      | none => exact ⟨rfl, rfl⟩
      | some p => exact ⟨rfl, Function.update_of_ne hx _ _⟩
    have hbothFrame : both.prev = back.prev ∧ ∀ x ≠ block b, both.next x = back.next x := by
      rw [← hboth]
      cases rest with
      | nil => exact ⟨rfl, fun _ _ => rfl⟩
      | cons n rest => exact ⟨rfl, fun x hx => Function.update_of_ne hx _ _⟩
    refine ⟨?_, fun x hx => ?_, ?_⟩
    · cases rest with
      | nil => trivial
      | cons n rest =>
        refine ⟨?_, hfirst n b rfl rfl, hchain⟩
        rw [(hframe _ hbrest).1, ← hboth]
        exact Function.update_self ..
    · rw [List.map_cons, List.mem_cons, not_or] at hx
      rw [(hframe x hx.2).1, (hframe x hx.2).2, hbothFrame.1, hbothFrame.2 x hx.1]
      exact hbackFrame x hx.1
    · rintro b' p hb' rfl
      cases hb'
      rw [(hframe _ hbrest).2, hbothFrame.1, ← hback]
      exact Function.update_self ..

theorem init_linked (links : Links (FreeNode β)) (hnodup : l.Nodup) : Linked l (init links l) l := by
  obtain ⟨hchain, -, -⟩ := linkBlocks_spec none links hnodup
  have hhead : (fakeHead : FreeNode β) ∉ l.map block := by simp
  have htail : (fakeTail : FreeNode β) ∉ l.map block := by simp
  have hcleared := (hchain.clear hhead).clear htail
  generalize hlinks : ((linkBlocks none l links).clear fakeHead).clear fakeTail = base at hcleared
  have hheadPrev : base.prev fakeHead = none := by
    rw [← hlinks, Links.prev_clear_of_ne (by simp), Links.prev_clear_self]
  have htailNext : base.next fakeTail = none := by rw [← hlinks, Links.next_clear_self]
  have hnodes := nodup_nodes hnodup
  rw [init, hlinks]
  cases l with
  | nil =>
    have hends : (base.link fakeHead fakeTail).Chain (fakeHead :: fakeTail :: []) :=
      @Links.Chain.link _ _ _ _ [] _ _ trivial trivial hnodes
    refine ⟨hends, ?_, ?_, hnodup, rfl, fun b hb => absurd hb (List.not_mem_nil)⟩
    · rw [← hheadPrev]
      exact Links.prev_link_of_ne (by simp) _
    · rw [← htailNext]
      exact Links.next_link_of_ne (by simp) _
  | cons b rest =>
    obtain ⟨front, last, hlast⟩ : ∃ front last, b :: rest = front ++ [last] :=
      ⟨_, _, (List.dropLast_append_getLast (List.cons_ne_nil b rest)).symm⟩
    have hgetLast : (b :: rest).getLast? = some last := by rw [hlast, List.getLast?_concat]
    rw [hgetLast]
    show Linked _ ⟨(base.link fakeHead (block b)).link (block last) fakeTail, _⟩ _
    have hfront : (base.link fakeHead (block b)).Chain (fakeHead :: block b :: rest.map block) := by
      refine @Links.Chain.link _ _ _ _ [] _ _ trivial hcleared ?_
      exact hnodes.sublist (List.sublist_append_left _ [fakeTail])
    have hmap : fakeHead :: block b :: rest.map block = fakeHead :: front.map block ++ [block last] := by
      rw [← List.map_cons, hlast, List.map_append]
      rfl
    rw [hmap] at hfront
    have hnodes' : fakeHead :: front.map block ++ block last :: fakeTail :: [] = nodes (b :: rest) := by
      rw [nodes, hlast, List.map_append, List.append_assoc]
      rfl
    have htailChain : ((base.link fakeHead (block b))).Chain [fakeTail] := trivial
    have hall := hfront.link htailChain (by rwa [hnodes'])
    rw [hnodes'] at hall
    refine ⟨hall, ?_, ?_, hnodup, rfl, fun b hb hnot => absurd hb hnot⟩
    · rw [Links.prev_link_of_ne (by simp), Links.prev_link_of_ne (by simp), hheadPrev]
    · rw [Links.next_link_of_ne (by simp), Links.next_link_of_ne (by simp), htailNext]

theorem cleared_of_clear {x y : FreeNode β} {l' : List β} (h : Linked seen q l)
    (hx : ∀ b, b ∉ l → block b ≠ x) (hy : ∀ b, b ∉ l → block b ≠ y)
    (hl : ∀ b', b' ∉ l' → b' = b ∨ b' ∉ l) :
    ∀ b' ∈ seen, b' ∉ l' → ((q.links.link x y).clear (block b)).prev (block b') = none ∧
      ((q.links.link x y).clear (block b)).next (block b') = none := by
  intro b' hb' hnot
  by_cases heq : b' = b
  · rw [heq]
    exact ⟨Links.prev_clear_self _ _, Links.next_clear_self _ _⟩
  · have hout : b' ∉ l := (hl b' hnot).resolve_left heq
    have hne : block b' ≠ block b := fun h => heq (block_injective h)
    rw [Links.prev_clear_of_ne hne, Links.next_clear_of_ne hne, Links.prev_link_of_ne (hy b' hout),
      Links.next_link_of_ne (hx b' hout)]
    exact h.cleared b' hb' hout

theorem Linked.unlink {xs ys : List β} (h : Linked seen q (xs ++ b :: ys)) :
    ∃ x y, q.links.prev (block b) = some x ∧ q.links.next (block b) = some y ∧
      (xs = [] → x = fakeHead) ∧
      Linked seen ⟨(q.links.link x y).clear (block b), q.numFreeBlocks - 1⟩ (xs ++ ys) := by
  obtain ⟨front, x, hx⟩ := exists_last xs
  obtain ⟨y, rest, hy⟩ := exists_first ys
  have hsplit : nodes (xs ++ b :: ys) = front ++ x :: block b :: y :: rest := by
    calc nodes (xs ++ b :: ys)
      _ = (fakeHead :: xs.map block) ++ block b :: (ys.map block ++ [fakeTail]) := by simp [nodes]
      _ = front ++ x :: block b :: y :: rest := by rw [hx, hy, List.append_assoc, List.singleton_append]
  have hsplit' : nodes (xs ++ ys) = front ++ x :: y :: rest := by
    calc nodes (xs ++ ys)
      _ = (fakeHead :: xs.map block) ++ (ys.map block ++ [fakeTail]) := by simp [nodes]
      _ = front ++ x :: y :: rest := by rw [hx, hy, List.append_assoc, List.singleton_append]
  obtain ⟨hb, hnodup⟩ := List.nodup_middle.1 h.nodup |> List.nodup_cons.1
  have hxmem : x = fakeHead ∨ x ∈ xs.map block := by
    have hmem : x ∈ fakeHead :: xs.map block := by
      rw [hx]
      exact List.mem_append_right _ (List.mem_singleton_self x)
    exact List.mem_cons.1 hmem
  have hymem : y = fakeTail ∨ y ∈ ys.map block := by
    have hmem : y ∈ ys.map block ++ [fakeTail] := by
      rw [hy]
      exact List.mem_cons_self
    exact (List.mem_append.1 hmem).symm.imp_left List.mem_singleton.1
  have hchain := h.chain
  rw [hsplit, Links.chain_append] at hchain
  obtain ⟨hfront, hnextX, hprevB, hnextB, hprevY, hrest⟩ := hchain
  refine ⟨x, y, hprevB, hnextB, fun hnil => ?_, ?_⟩
  · rw [hnil] at hx
    have hlast := congrArg List.getLast? hx
    rw [List.getLast?_concat] at hlast
    exact (Option.some.inj hlast).symm
  have hnodup' : (nodes (xs ++ ys)).Nodup := nodup_nodes hnodup
  have hbnodes : block b ∉ nodes (xs ++ ys) := by
    rw [mem_nodes]
    exact hb
  constructor
  case chain =>
    rw [hsplit'] at hnodup' hbnodes ⊢
    exact (hfront.link hrest hnodup').clear hbnodes
  case headPrev =>
    rw [Links.prev_clear_of_ne (by simp), Links.prev_link_of_ne]
    · exact h.headPrev
    · rintro rfl
      simp at hymem
  case tailNext =>
    rw [Links.next_clear_of_ne (by simp), Links.next_link_of_ne]
    · exact h.tailNext
    · rintro rfl
      simp at hxmem
  case nodup => exact hnodup
  case count =>
    have hcount := h.count
    rw [List.length_append, List.length_cons] at hcount
    rw [hcount, List.length_append]
    push_cast
    omega
  case cleared =>
    refine cleared_of_clear h (fun b' hb' => ?_) (fun b' hb' => ?_) fun b' hb' => ?_
    · rintro rfl
      simp only [reduceCtorEq, mem_map_block, false_or] at hxmem
      exact hb' (List.mem_append_left _ hxmem)
    · rintro rfl
      simp only [reduceCtorEq, mem_map_block, false_or] at hymem
      exact hb' (List.mem_append_right _ (List.mem_cons_of_mem b hymem))
    · rw [List.mem_append, not_or] at hb'
      rw [List.mem_append, List.mem_cons, not_or, not_or]
      by_cases heq : b' = b
      · exact .inl heq
      · exact .inr ⟨hb'.1, heq, hb'.2⟩

theorem Linked.remove (h : Linked seen q l) (hb : b ∈ l) :
    ∃ q', q.remove b = .ok q' ∧ Linked seen q' (l.erase b) := by
  obtain ⟨xs, ys, rfl⟩ := List.append_of_mem hb
  obtain ⟨x, y, hprev, hnext, -, hlinked⟩ := h.unlink
  have hnot : b ∉ xs := fun hmem =>
    (List.nodup_append.1 h.nodup).2.2 b hmem b List.mem_cons_self rfl
  rw [List.erase_append_right _ hnot, List.erase_cons_head]
  refine ⟨_, ?_, hlinked⟩
  rw [FreeKVCacheBlockQueue.remove, hprev, hnext]
  rfl

theorem Linked.popleft (h : Linked seen q (b :: l)) :
    ∃ q', q.popleft = .ok (block b, q') ∧ Linked seen q' l := by
  obtain ⟨x, y, hprev, hnext, hx, hlinked⟩ := @Linked.unlink _ _ _ _ b [] l h
  obtain rfl := hx rfl
  refine ⟨_, ?_, hlinked⟩
  rw [FreeKVCacheBlockQueue.popleft, h.chain.1]
  dsimp only
  rw [hnext]
  rfl

theorem Linked.popleft_nil (h : Linked seen q []) :
    q.popleft = .error (.valueError "No free blocks available") := by
  rw [FreeKVCacheBlockQueue.popleft, h.chain.1]
  dsimp only
  have hzero : q.numFreeBlocks = 0 := h.count
  rw [Result.ensure, if_pos hzero]
  rfl

def clearAll (bs : List β) (links : Links (FreeNode β)) : Links (FreeNode β) :=
  bs.foldl (fun links b => links.clear (block b)) links

theorem clearAll_of_not_mem {x : FreeNode β} (hx : x ∉ bs.map block) :
    (clearAll bs links).next x = links.next x ∧ (clearAll bs links).prev x = links.prev x := by
  induction bs generalizing links with
  | nil => exact ⟨rfl, rfl⟩
  | cons b bs ih =>
    rw [List.map_cons, List.mem_cons, not_or] at hx
    rw [clearAll, List.foldl_cons, ← clearAll, (ih hx.2).1, (ih hx.2).2]
    exact ⟨Links.next_clear_of_ne hx.1, Links.prev_clear_of_ne hx.1⟩

theorem clearAll_of_mem (hb : b ∈ bs) :
    (clearAll bs links).prev (block b) = none ∧ (clearAll bs links).next (block b) = none := by
  induction bs generalizing links with
  | nil => cases hb
  | cons b' bs ih =>
    rw [clearAll, List.foldl_cons, ← clearAll]
    by_cases hmem : b ∈ bs
    · exact ih hmem
    · obtain rfl := (List.mem_cons.1 hb).resolve_right hmem
      obtain ⟨hnext, hprev⟩ := @clearAll_of_not_mem _ _ bs (links.clear (block b)) (block b)
        fun h => hmem (mem_map_block.1 h)
      rw [hnext, hprev]
      exact ⟨Links.prev_clear_self _ _, Links.next_clear_self _ _⟩

theorem popLoop_ok {xs ys : List β} (hchain : links.Chain ((xs ++ ys).map block ++ [fakeTail]))
    (hnodup : (xs ++ ys).Nodup) :
    popLoop xs.length ((xs ++ ys).map block ++ [fakeTail]).head? links =
        .ok (xs.map block, (ys.map block ++ [fakeTail]).head?, clearAll xs links) ∧
      (clearAll xs links).Chain (ys.map block ++ [fakeTail]) := by
  induction xs generalizing links with
  | nil => exact ⟨rfl, hchain⟩
  | cons b xs ih =>
    rw [List.cons_append] at hnodup
    rw [List.cons_append, List.map_cons, List.cons_append] at hchain
    obtain ⟨hb, hnodup⟩ := List.nodup_cons.1 hnodup
    have hrest : block b ∉ (xs ++ ys).map block ++ [fakeTail] := by
      rw [List.mem_append, mem_map_block, List.mem_singleton, not_or]
      exact ⟨hb, nofun⟩
    have hne : (xs ++ ys).map block ++ [fakeTail] ≠ [] := List.append_ne_nil_of_right_ne_nil _ (by simp)
    obtain ⟨hloop, hend⟩ := ih (hchain.tail.clear hrest) hnodup
    refine ⟨?_, hend⟩
    rw [List.cons_append, List.map_cons, List.cons_append, List.head?_cons, List.length_cons, popLoop,
      hchain.next_eq hne, hloop]
    rfl

theorem Linked.popleftN {xs ys : List β} (h : Linked seen q (xs ++ ys)) :
    ∃ q', q.popleftN xs.length = .ok (xs.map block, q') ∧ Linked seen q' ys := by
  rw [FreeKVCacheBlockQueue.popleftN]
  by_cases hzero : xs.length = 0
  · obtain rfl := List.eq_nil_of_length_eq_zero hzero
    exact ⟨q, if_pos rfl, h⟩
  obtain ⟨first, rest, hfirst⟩ := exists_first ys
  have hne : (xs ++ ys).map block ++ [fakeTail] ≠ [] := List.append_ne_nil_of_right_ne_nil _ (by simp)
  obtain ⟨hloop, hend⟩ := popLoop_ok h.chain.tail h.nodup
  have hcount := h.count
  rw [List.length_append] at hcount
  have henough : q.numFreeBlocks ≥ (xs.length : Int) := by
    rw [hcount]
    omega
  have hfirstMem : first = fakeTail ∨ first ∈ ys.map block := by
    have hmem : first ∈ ys.map block ++ [fakeTail] := by
      rw [hfirst]
      exact List.mem_cons_self
    exact (List.mem_append.1 hmem).symm.imp_left List.mem_singleton.1
  have hnodup : ys.Nodup := (List.nodup_append.1 h.nodup).2.1
  have hnodes : nodes ys = fakeHead :: first :: rest := by rw [nodes, hfirst]
  have hlink : ((clearAll xs q.links).link fakeHead first).Chain (nodes ys) := by
    rw [hfirst] at hend
    rw [hnodes]
    refine @Links.Chain.link _ _ _ _ [] _ _ trivial hend ?_
    rw [List.nil_append, ← hnodes]
    exact nodup_nodes hnodup
  refine ⟨⟨(clearAll xs q.links).link fakeHead first, q.numFreeBlocks - xs.length⟩, ?_, ?_⟩
  · rw [if_neg hzero, Result.ensure, if_pos henough, h.chain.next_eq hne, hloop, hfirst]
    rfl
  constructor
  case chain => exact hlink
  case headPrev =>
    rw [Links.prev_link_of_ne, (clearAll_of_not_mem (by simp)).2]
    · exact h.headPrev
    · rintro rfl
      simp at hfirstMem
  case tailNext =>
    rw [Links.next_link_of_ne (by simp), (clearAll_of_not_mem (by simp)).1]
    exact h.tailNext
  case nodup => exact hnodup
  case count =>
    rw [hcount]
    push_cast
    omega
  case cleared =>
    intro b hb hnot
    have hbfirst : block b ≠ first := by
      rintro rfl
      simp only [reduceCtorEq, mem_map_block, false_or] at hfirstMem
      exact hnot hfirstMem
    rw [Links.prev_link_of_ne hbfirst, Links.next_link_of_ne (by simp)]
    by_cases hmem : b ∈ xs
    · exact clearAll_of_mem hmem
    · have hout : b ∉ xs ++ ys := fun h => (List.mem_append.1 h).elim hmem hnot
      obtain ⟨hnext, hprev⟩ := @clearAll_of_not_mem _ _ xs q.links (block b)
        fun h => hmem (mem_map_block.1 h)
      rw [hnext, hprev]
      exact h.cleared b hb hout

theorem appendLoop_spec {front : List (FreeNode β)} {last : FreeNode β}
    (hchain : links.Chain (front ++ [last])) (hnodup : (front ++ last :: bs.map block).Nodup) :
    ∃ front' last' links', appendLoop bs (last, links) = (last', links') ∧
      front ++ last :: bs.map block = front' ++ [last'] ∧ last' ∈ last :: bs.map block ∧
      links'.Chain (front' ++ [last']) ∧
      (∀ x, x ∉ bs.map block → links'.prev x = links.prev x) ∧
      ∀ x, x ∉ last :: bs.map block → links'.next x = links.next x := by
  induction bs generalizing front last links with
  | nil => exact ⟨front, last, links, rfl, rfl, List.mem_cons_self, hchain, fun _ _ => rfl, fun _ _ => rfl⟩
  | cons b bs ih =>
    have hassoc : front ++ last :: block b :: bs.map block =
        (front ++ [last]) ++ block b :: bs.map block := by
      rw [List.append_assoc]
      rfl
    have hnodup' : (front ++ last :: block b :: []).Nodup := by
      refine hnodup.sublist (List.Sublist.append_left ?_ front)
      exact ((List.nil_sublist _).cons_cons (block b)).cons_cons last
    have hlink : (links.link last (block b)).Chain ((front ++ [last]) ++ [block b]) := by
      rw [List.append_assoc]
      exact hchain.link (b := block b) trivial hnodup'
    rw [List.map_cons, hassoc] at hnodup
    obtain ⟨front', last', links', hloop, hsplit, hmem, hchain', hprev, hnext⟩ := ih hlink hnodup
    refine ⟨front', last', links', hloop, ?_, List.mem_cons_of_mem last hmem, hchain', fun x hx => ?_, fun x hx => ?_⟩
    · rw [List.map_cons, hassoc, hsplit]
    · rw [List.map_cons, List.mem_cons, not_or] at hx
      rw [hprev x hx.2, Links.prev_link_of_ne hx.1]
    · rw [List.mem_cons, not_or] at hx
      rw [hnext x hx.2, Links.next_link_of_ne hx.1]

theorem Linked.appendN (h : Linked seen q l) (hbs : bs.Nodup) (hnew : ∀ b ∈ bs, b ∉ l) :
    ∃ q', q.appendN bs = .ok q' ∧ Linked (seen ++ bs) q' (l ++ bs) := by
  rw [FreeKVCacheBlockQueue.appendN]
  by_cases hzero : bs.length = 0
  · obtain rfl := List.eq_nil_of_length_eq_zero hzero
    rw [List.append_nil, List.append_nil]
    exact ⟨q, if_pos rfl, h⟩
  obtain ⟨front, last, hlast⟩ := exists_last l
  have hlastMem : last = fakeHead ∨ last ∈ l.map block := by
    have hmem : last ∈ fakeHead :: l.map block := by
      rw [hlast]
      exact List.mem_append_right _ (List.mem_singleton_self last)
    exact List.mem_cons.1 hmem
  have hnodup : (l ++ bs).Nodup :=
    List.nodup_append.2 ⟨h.nodup, hbs, fun x hx y hy hxy => hnew y hy (hxy ▸ hx)⟩
  have hnodes := nodup_nodes hnodup
  have hchain := h.chain
  rw [nodes, ← List.cons_append, hlast, List.append_assoc, List.singleton_append, Links.chain_append] at hchain
  have hsplit : nodes (l ++ bs) = (front ++ last :: bs.map block) ++ [fakeTail] := by
    calc nodes (l ++ bs)
      _ = (fakeHead :: l.map block) ++ (bs.map block ++ [fakeTail]) := by simp [nodes]
      _ = (front ++ last :: bs.map block) ++ [fakeTail] := by rw [hlast]; simp
  have hfrontNodup : (front ++ last :: bs.map block).Nodup := by
    rw [hsplit] at hnodes
    exact (List.nodup_append.1 hnodes).1
  obtain ⟨front', last', links', hloop, hback, hmem, hchain', hprev, hnext⟩ :=
    appendLoop_spec hchain.1 hfrontNodup
  have hlast' : last' ∈ fakeHead :: (l ++ bs).map block := by
    rw [List.map_append, ← List.cons_append, hlast]
    rcases List.mem_cons.1 hmem with rfl | hmem
    · exact List.mem_append_left _ (List.mem_append_right _ (List.mem_singleton_self _))
    · exact List.mem_append_right _ hmem
  have htail : links'.Chain [fakeTail] := trivial
  rw [hsplit, hback, List.append_assoc, List.singleton_append] at hnodes
  have hend := hchain'.link htail hnodes
  refine ⟨⟨links'.link last' fakeTail, q.numFreeBlocks + bs.length⟩, ?_, ?_⟩
  · rw [if_neg hzero, hchain.2.2.1]
    dsimp only
    rw [hloop]
    rfl
  constructor
  case chain =>
    rw [hsplit, hback, List.append_assoc]
    exact hend
  case headPrev =>
    rw [Links.prev_link_of_ne (by simp), hprev _ (by simp)]
    exact h.headPrev
  case tailNext =>
    have hne : fakeTail ≠ last' := by
      rintro rfl
      simp at hlast'
    rw [Links.next_link_of_ne hne, hnext]
    · exact h.tailNext
    · rintro htail
      rcases List.mem_cons.1 htail with rfl | htail
      · simp at hlastMem
      · simp at htail
  case nodup => exact hnodup
  case count =>
    rw [h.count, List.length_append]
    push_cast
    rfl
  case cleared =>
    intro b hb hnot
    have hout : b ∉ l := fun hl => hnot (List.mem_append_left _ hl)
    have hbs : b ∉ bs := fun hbs => hnot (List.mem_append_right _ hbs)
    have hne : block b ≠ last' := by
      rintro rfl
      rw [List.mem_cons, mem_map_block] at hlast'
      exact hlast'.elim nofun hnot
    have hnext' : block b ∉ last :: bs.map block := by
      intro hmem
      rcases List.mem_cons.1 hmem with rfl | hmem
      · rw [mem_map_block] at hlastMem
        exact hlastMem.elim nofun hout
      · exact hbs (mem_map_block.1 hmem)
    rw [Links.prev_link_of_ne (by simp), Links.next_link_of_ne hne, hnext _ hnext',
      hprev _ fun hmem => hbs (mem_map_block.1 hmem)]
    exact h.cleared b ((List.mem_append.1 hb).resolve_right hbs) hout

theorem Linked.append (h : Linked seen q l) (hb : b ∉ l) :
    ∃ q', q.append b = .ok q' ∧ Linked (seen ++ [b]) q' (l ++ [b]) := by
  obtain ⟨front, last, hlast⟩ := exists_last l
  have hprev : q.links.prev fakeTail = some last := by
    have hchain := h.chain
    rw [nodes, ← List.cons_append, hlast, List.append_assoc, List.singleton_append,
      Links.chain_append] at hchain
    exact hchain.2.2.1
  have hsame : q.append b = q.appendN [b] := by
    rw [FreeKVCacheBlockQueue.append, FreeKVCacheBlockQueue.appendN, hprev]
    rfl
  rw [hsame]
  exact h.appendN (List.nodup_singleton b) fun b' hb' => List.mem_singleton.1 hb' ▸ hb

theorem Linked.step {op : Op β} (h : Linked seen q l) (hop : op.Allowed l) :
    match op.plainStep l with
    | some (ret, l') => ∃ q', op.step q = .ok (ret.map block, q') ∧ Linked (seen ++ op.entering) q' l'
    | none => (∃ e, op.step q = .error e) ∧ op.entering = [] := by
  cases op with
  | popleft =>
    cases l with
    | nil =>
      refine ⟨⟨.valueError "No free blocks available", ?_⟩, rfl⟩
      rw [Op.step, h.popleft_nil]
      rfl
    | cons b l =>
      obtain ⟨q', hpop, hlinked⟩ := h.popleft
      refine ⟨q', ?_, ?_⟩
      · rw [Op.step, hpop]
        rfl
      · rw [Op.entering, List.append_nil]
        exact hlinked
  | popleftN n =>
    rw [Op.plainStep, Op.step, Op.entering, List.append_nil]
    split
    · rename_i ret l' hplain
      split at hplain
      · rename_i hle
        cases hplain
        have hlen : (l.take n).length = n := by rw [List.length_take, Nat.min_eq_left hle]
        have hsplit : Linked seen q (l.take n ++ l.drop n) := by rwa [List.take_append_drop]
        have hpop := hsplit.popleftN
        rwa [hlen] at hpop
      · cases hplain
    · rename_i hplain
      split at hplain
      · cases hplain
      · rename_i hlt
        have hshort : ¬ q.numFreeBlocks ≥ (n : Int) := by
          rw [h.count]
          omega
        refine ⟨⟨.assertionError "self.num_free_blocks >= n", ?_⟩, rfl⟩
        rw [FreeKVCacheBlockQueue.popleftN, if_neg (by omega), Result.ensure, if_neg hshort]
        rfl
  | remove b =>
    obtain ⟨q', hremove, hlinked⟩ := h.remove hop
    refine ⟨q', ?_, ?_⟩
    · rw [Op.step, hremove]
      rfl
    · rw [Op.entering, List.append_nil]
      exact hlinked
  | append b =>
    obtain ⟨q', happend, hlinked⟩ := h.append hop
    refine ⟨q', ?_, hlinked⟩
    rw [Op.step, happend]
    rfl
  | appendN blocks =>
    obtain ⟨q', happend, hlinked⟩ := h.appendN hop.1 hop.2
    refine ⟨q', ?_, hlinked⟩
    rw [Op.step, happend]
    rfl

theorem Linked.answers {op : Op β} (h : Linked seen q l) (hop : op.Allowed l) : op.Answers seen q l := by
  have hstep := h.step hop
  rw [Op.Answers]
  split
  · rename_i ret l' hplain
    rw [hplain] at hstep
    obtain ⟨q', hok, hlinked⟩ := hstep
    exact ⟨q', hok, hlinked.refines⟩
  · rename_i hplain
    rw [hplain] at hstep
    exact hstep.1

theorem Linked.apply {op : Op β} (h : Linked seen q l) (hop : op.Allowed l) :
    Linked (seen ++ op.entering) (op.apply q) (op.plainApply l) := by
  have hstep := h.step hop
  rw [Op.apply, Op.plainApply]
  split at hstep
  · rename_i ret l' hplain
    obtain ⟨q', hok, hlinked⟩ := hstep
    rw [hok, hplain]
    exact hlinked
  · rename_i hplain
    obtain ⟨⟨e, hraise⟩, henter⟩ := hstep
    rw [hraise, hplain, henter, List.append_nil]
    exact h

theorem Linked.run {ops : List (Op β)} (h : Linked seen q l) (hops : AllowedRun l ops) :
    Linked (seen ++ ops.flatMap Op.entering) (ops.foldl Op.apply q) (ops.foldl Op.plainApply l) := by
  induction ops generalizing seen q l with
  | nil =>
    rw [List.flatMap_nil, List.append_nil]
    exact h
  | cons op ops ih =>
    rw [List.flatMap_cons, ← List.append_assoc]
    exact ih (h.apply hops.1) hops.2

/-- The queue is the sequence, after any calls and in what the next one returns. -/
theorem refines_of_run (links : Links (FreeNode β)) {blocks : List β} (hnodup : blocks.Nodup)
    {ops : List (Op β)} (hops : AllowedRun blocks ops) :
    Refines (blocks ++ ops.flatMap Op.entering) (ops.foldl Op.apply (init links blocks))
        (ops.foldl Op.plainApply blocks) ∧
      ∀ op : Op β, op.Allowed (ops.foldl Op.plainApply blocks) →
        op.Answers (blocks ++ ops.flatMap Op.entering) (ops.foldl Op.apply (init links blocks))
          (ops.foldl Op.plainApply blocks) := by
  have hlinked := (init_linked links hnodup).run hops
  exact ⟨hlinked.refines, fun _ hop => hlinked.answers hop⟩

theorem refines_of_run_middle :
    Refines ([1, 2, 3, 4] ++ [2, 1])
      ([.popleftN 2, .remove 3, .appendN [2, 1]].foldl Op.apply
        (init ⟨fun _ => none, fun _ => none⟩ [1, 2, 3, 4])) [4, 2, 1] := by
  have hnew : ∀ b ∈ [2, 1], b ∉ [4] := by decide
  have hops : AllowedRun [1, 2, 3, 4] [.popleftN 2, .remove 3, .appendN [2, 1]] :=
    ⟨trivial, List.mem_cons_self, ⟨by decide, hnew⟩, trivial⟩
  exact (refines_of_run ⟨fun _ => none, fun _ => none⟩ (by decide) hops).1

end Vllm.FreeKVCacheBlockQueue
