import Mathlib
import ChainGuest.Proofs.Aptos.Refinement
import ChainGuest.Proofs.Cache.Frugality
import ChainGuest.Proofs.Evm.Refinement
import ChainGuest.Proofs.Sui.Refinement

/-! # The contexts of all chains

    The caches of a context do not show in what it answers: contexts of chains that run Move
    answer as references that remember nothing but first loads and first values
    (`move_conversations_eq_references`), and on no chain does a position that was kept fall
    outside of what is loaded (`contexts_never_stray`). The caches show in what the host is
    asked: on no chain is anything fetched or computed that was not asked for, or that is there
    already (`contexts_frugal`).
-/

namespace ChainGuest

/-- The contexts of Sui and Aptos answer every conversation as their references do, whatever their
    hosts serve meanwhile.

    Both are cases of one simulation: the two contexts have layouts, and what they can be asked
    for are plans along these. -/
theorem move_conversations_eq_references (host : Host) (config : Config) :
    (∀ visits : List (Visit (Inquiry Sui.Request)),
      conversation (Inquiry.resolve Sui.Access.resolve) (Inquiry.make Sui.Access.action) visits []
          (Sui.Context.new host config) =
        conversation (Inquiry.resolve Sui.Access.resolve)
          (Inquiry.put (Sui.Reference.answer config)) visits [] Remembered.new) ∧
      ∀ visits : List (Visit (Inquiry Aptos.Request)),
        conversation (Inquiry.resolve Aptos.Access.resolve) (Inquiry.make Aptos.Access.action)
            visits [] (Aptos.Context.new host config) =
          conversation (Inquiry.resolve Aptos.Access.resolve)
            (Inquiry.put (Aptos.Reference.answer config)) visits [] Remembered.new :=
  ⟨Sui.conversation_eq_reference host config, Aptos.conversation_eq_reference host config⟩

/-- No look-up in a context goes astray: the positions that views and tables of links keep are
    positions in what is loaded, whatever is asked and whatever the hosts serve. -/
theorem contexts_never_stray (host : Host) (config : Config) (failure : Failure)
    (hstray : failure.cause = .strayView) :
    (∀ visits : List (Visit (Inquiry Evm.Request)),
      some (.error failure) ∉ conversation (Inquiry.resolve Evm.Access.resolve)
        (Inquiry.make Evm.Access.action) visits [] (Evm.Context.new host config)) ∧
      (∀ visits : List (Visit (Inquiry Sui.Request)),
        some (.error failure) ∉ conversation (Inquiry.resolve Sui.Access.resolve)
          (Inquiry.make Sui.Access.action) visits [] (Sui.Context.new host config)) ∧
      ∀ visits : List (Visit (Inquiry Aptos.Request)),
        some (.error failure) ∉ conversation (Inquiry.resolve Aptos.Access.resolve)
          (Inquiry.make Aptos.Access.action) visits [] (Aptos.Context.new host config) := by
  refine ⟨fun visits h => ?_, fun visits h => ?_, fun visits h => ?_⟩
  · exact Evm.client.never_stray (Evm.mirrors_new host config) visits failure h hstray
  · exact Sui.client.never_stray (Sui.mirrors_new host config) visits failure h hstray
  · exact Aptos.client.never_stray (Aptos.mirrors_new host config) visits failure h hstray

/-- The contexts of all chains fetch and compute only what they are asked for, and that once,
    whatever is asked of them, and whatever their hosts serve and are asked otherwise meanwhile.

    What "once" means is in `Client.Frugal`, for collections, values of arguments and joins: each
    stage of a run adds what is due there and nothing is added between stages, so the numbers for
    the whole run follow from the order in which things fail and succeed. -/
theorem contexts_frugal (host : Host) (config : Config) :
    (∀ turns : List (Turn (Evm.Access Nat Nat)),
      Evm.client.Frugal (Evm.Context.new host config)
        (chronicle Evm.Access.resolve Evm.Access.action turns [] (Evm.Context.new host config))) ∧
      (∀ turns : List (Turn Sui.Request),
        Sui.client.Frugal (Sui.Context.new host config)
          (chronicle Sui.Access.resolve Sui.Access.action turns []
            (Sui.Context.new host config))) ∧
      ∀ turns : List (Turn Aptos.Request),
        Aptos.client.Frugal (Aptos.Context.new host config)
          (chronicle Aptos.Access.resolve Aptos.Access.action turns []
            (Aptos.Context.new host config)) := by
  refine ⟨fun turns => ?_, fun turns => ?_, fun turns => ?_⟩
  · exact Evm.client.frugal_chronicle (Evm.mirrors_new host config) turns
  · exact Sui.client.frugal_chronicle (Sui.mirrors_new host config) turns
  · exact Aptos.client.frugal_chronicle (Aptos.mirrors_new host config) turns

-- A load that fails is made again, and one that succeeded is not, though it found no records.
example :
    let lost : Interlude := .present ⟨⟨[], fun _ => .pack 1 1⟩, fun _ => .null⟩
    let bare : Interlude := .present ⟨⟨[], fun _ => .null⟩, fun _ => .null⟩
    let c := Evm.Context.new .new .default
    let stages := chronicle Evm.Access.resolve Evm.Access.action
      [⟨[lost], .block⟩, ⟨[bare], .block⟩, ⟨[lost], .blockViews⟩] [] c
    (Stage.last c stages).bridge.host.collectionRequests = [.blocks, .blocks] := rfl

end ChainGuest
