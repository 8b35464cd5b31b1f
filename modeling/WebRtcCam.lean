import WebRtcCam.LtsRunProofs
import WebRtcCam.JsonTextProofs
import WebRtcCam.CamWireProofs
import WebRtcCam.CamRelayProofs
import WebRtcCam.CamRoutingProofs
import WebRtcCam.RtcSignalingProofs
import WebRtcCam.CamPageProofs
import WebRtcCam.CamClosureProofs
import WebRtcCam.CamPendingProofs
import WebRtcCam.CamNegotiationProofs
import WebRtcCam.CamGuardProofs
import WebRtcCam.CamHonestProofs
import WebRtcCam.CamNetProofs
import WebRtcCam.CamMailProofs
import WebRtcCam.CamStuckProofs
import WebRtcCam.CamReplyProofs
import WebRtcCam.CamAnswerProofs
import WebRtcCam.CamTracksProofs
import WebRtcCam.CamPartyProofs
import WebRtcCam.ReactFiberProofs
import WebRtcCam.UseMediaStreamProofs
import WebRtcCam.CamLifecycleProofs
import WebRtcCam.UseSignalingProofs
import WebRtcCam.UseWebRTCProofs
import WebRtcCam.HookEffectsProofs
import WebRtcCam.CamTrailProofs
import WebRtcCam.CamExactProofs
import WebRtcCam.CamAgreeProofs
import WebRtcCam.CamPeerRefProofs
import WebRtcCam.CamRejectedProofs
import WebRtcCam.UseMediaLatestProofs
import WebRtcCam.CamGoodbyeProofs
import WebRtcCam.SignalingSocketsProofs
import WebRtcCam.WebRTCCallsProofs
import WebRtcCam.WebRTCFlagProofs
import WebRtcCam.AsyncFunctionProofs
import WebRtcCam.CamReceiveProofs
import WebRtcCam.WebRTCOffersProofs
import WebRtcCam.WebRTCReceiveProofs
import WebRtcCam.WebRTCTasksProofs
import WebRtcCam.CamWorkProofs
import WebRtcCam.CamButtonProofs
import WebRtcCam.CamDrainProofs
import WebRtcCam.CamApartProofs
import WebRtcCam.CamCallProofs
import WebRtcCam.CamOrderProofs
import WebRtcCam.Utf16Proofs
import WebRtcCam.WasmMemoryProofs
import WebRtcCam.WasmCameraProofs
import WebRtcCam.WasmClosureProofs
import WebRtcCam.WebRTCHandshakeProofs
import WebRtcCam.CamCallBackProofs
