import Vllm.AsyncRun
import Vllm.BlockTableSync
import Vllm.HybridAgreement
import Vllm.MultiModalRun
import Vllm.ShmObjectRun
import Vllm.OffloadingRefusal
import Vllm.KVEvents
import Vllm.MessageChunk
import Vllm.MessageQueueRun
import Vllm.LoraSlots
import Vllm.InvalidBlocksRun
import Vllm.DeltaStreaming
import Vllm.GrammarApply
import Vllm.SpeculativeDecoding
import Vllm.SplitBatch
import Vllm.PinnedLRUCache
import Vllm.MinTokensRun
import Vllm.FanOut
import Vllm.RequestIndexRun
import Vllm.LocalAttentionMask
import Vllm.PromptPlaceholders
import Vllm.BlockTableSplit
import Vllm.FreeBlockQueueLaws
import Vllm.EncoderCalls
import Vllm.EncoderOwnersRun
import Vllm.EncoderSlotRun
import Vllm.MambaRun
import Vllm.OnlineQuant
import Vllm.NgramProposer
import Vllm.DetokenizerGroups
import Vllm.AutoFitLaws
import Vllm.WaitingOrder
import Vllm.RunningWatchLaws
import Vllm.EncoderLookups
import Vllm.RepetitionCheck
import Vllm.BlockHashList
import Vllm.CustomCacheManagerLaws
import Vllm.OnlineQuantLayerLaws
import Vllm.InputIdsLaws
import Vllm.DataParallelLaws
import Vllm.EplbBalance
